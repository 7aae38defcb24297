import Mathlib.Data.List.Nodup
import Mathlib.Data.List.Lattice
import Mathlib.Data.List.Perm.Subperm
import Mathlib.Logic.Relation

/-!
# Nodes that hang below each other

Nodes with links from a node to the nodes below it.  Nodes are taken out together with everything
below them, or alone; in the second case the links of the node go with it, and what hung below the
node only through it stays.

* `walk`              — the worklist loop that collects what hangs below.
* `Net.Below`         — a chain of links leads from one node to another.
* `mem_descend_iff`   — the loop collects exactly what hangs below the nodes it starts from.
* `Net.below_keep_iff` — when a part is kept that is closed upwards, the chains to its nodes stay.
* `Net.Hangs`         — the nodes that go when others are taken out with everything below them.
-/

open Relation

/-! ## the loop -/

section
variable {α : Type*} [DecidableEq α] (next : α → List α)

/-- the nodes of `stage` are still to be visited, those of `done` have been -/
def walk : Nat → List α → List α → List α
  | 0, _, done => done
  | _ + 1, [], done => done
  | fuel + 1, x :: stage, done =>
    walk fuel ((next x).filter (fun c => c ∉ x :: done) ∪ stage) (x :: done)

/-- what the loop keeps: no node is visited twice, and below a visited node everything has been
visited or is staged -/
structure Visiting (nodes stage done : List α) : Prop where
  stage_nodup : stage.Nodup
  done_nodup : done.Nodup
  disjoint : ∀ x ∈ stage, x ∉ done
  stage_subset : ∀ x ∈ stage, x ∈ nodes
  done_subset : ∀ x ∈ done, x ∈ nodes
  closed : ∀ x ∈ done, ∀ c ∈ next x, c ∈ done ∨ c ∈ stage

end

section
variable {α : Type*} {next : α → List α} {nodes stage done : List α}

theorem Visiting.reach_of_done (h : Visiting next nodes stage done) {x y : α} (hx : x ∈ done)
    (hxy : ReflTransGen (fun a c => c ∈ next a) x y) :
    y ∈ done ∨ ∃ z ∈ stage, ReflTransGen (fun a c => c ∈ next a) z y := by
  induction hxy using ReflTransGen.head_induction_on with
  | refl => exact .inl hx
  | head hac hcy ih =>
    rcases h.closed _ hx _ hac with hc | hc
    · exact ih hc
    · exact .inr ⟨_, hc, hcy⟩

theorem Visiting.stage_eq_nil (h : Visiting next nodes stage done)
    (hall : nodes.length ≤ done.length) : stage = [] := by
  rw [List.eq_nil_iff_forall_not_mem]
  intro x hx
  have hnodup : (x :: done).Nodup := List.nodup_cons.mpr ⟨h.disjoint x hx, h.done_nodup⟩
  have hsub : x :: done ⊆ nodes := List.cons_subset.mpr ⟨h.stage_subset x hx, h.done_subset⟩
  have hlen := (List.subperm_of_subset hnodup hsub).length_le
  rw [List.length_cons] at hlen
  omega

variable [DecidableEq α]

theorem Visiting.step {x : α} (hnext : ∀ a, ∀ c ∈ next a, c ∈ nodes)
    (h : Visiting next nodes (x :: stage) done) :
    Visiting next nodes ((next x).filter (fun c => c ∉ x :: done) ∪ stage) (x :: done) where
  stage_nodup := List.Nodup.union _ (List.nodup_cons.mp h.stage_nodup).2
  done_nodup := List.nodup_cons.mpr ⟨h.disjoint x List.mem_cons_self, h.done_nodup⟩
  disjoint := by
    intro y hy hdone
    rcases List.mem_union_iff.mp hy with hy | hy
    · exact of_decide_eq_true (List.mem_filter.mp hy).2 hdone
    · rcases List.mem_cons.mp hdone with heq | hdone
      · exact (List.nodup_cons.mp h.stage_nodup).1 (heq ▸ hy)
      · exact h.disjoint y (List.mem_cons_of_mem _ hy) hdone
  stage_subset := by
    intro y hy
    rcases List.mem_union_iff.mp hy with hy | hy
    · exact hnext x y (List.mem_filter.mp hy).1
    · exact h.stage_subset y (List.mem_cons_of_mem _ hy)
  done_subset := by
    intro y hy
    rcases List.mem_cons.mp hy with rfl | hy
    · exact h.stage_subset y List.mem_cons_self
    · exact h.done_subset y hy
  closed := by
    intro y hy c hc
    by_cases hdone : c ∈ x :: done
    · exact .inl hdone
    · refine .inr (List.mem_union_iff.mpr ?_)
      rcases List.mem_cons.mp hy with rfl | hy
      · exact .inl (List.mem_filter.mpr ⟨hc, decide_eq_true hdone⟩)
      · rcases h.closed y hy c hc with hc | hc
        · exact absurd (List.mem_cons_of_mem _ hc) hdone
        · rcases List.mem_cons.mp hc with rfl | hc
          · exact absurd List.mem_cons_self hdone
          · exact .inr hc

theorem mem_walk_iff (hnext : ∀ a, ∀ c ∈ next a, c ∈ nodes) {fuel : Nat}
    (h : Visiting next nodes stage done) (hfuel : nodes.length ≤ fuel + done.length) {y : α} :
    y ∈ walk next fuel stage done ↔
      y ∈ done ∨ ∃ x ∈ stage, ReflTransGen (fun a c => c ∈ next a) x y := by
  induction fuel generalizing stage done with
  | zero =>
    rw [h.stage_eq_nil (by omega)]
    simp [walk]
  | succ fuel ih =>
    cases stage with
    | nil => simp [walk]
    | cons x stage =>
      have hstep := h.step hnext
      rw [walk, ih hstep (by rw [List.length_cons]; omega)]
      constructor
      · intro hy
        rcases hy with hy | ⟨z, hz, hzy⟩
        · rcases List.mem_cons.mp hy with rfl | hy
          · exact .inr ⟨y, List.mem_cons_self, .refl⟩
          · exact .inl hy
        · rcases List.mem_union_iff.mp hz with hz | hz
          · exact .inr ⟨x, List.mem_cons_self, hzy.head (List.mem_filter.mp hz).1⟩
          · exact .inr ⟨z, List.mem_cons_of_mem _ hz, hzy⟩
      · intro hy
        rcases hy with hy | ⟨z, hz, hzy⟩
        · exact .inl (List.mem_cons_of_mem _ hy)
        · rcases List.mem_cons.mp hz with rfl | hz
          · exact hstep.reach_of_done List.mem_cons_self hzy
          · exact .inr ⟨z, List.mem_union_iff.mpr (.inr hz), hzy⟩

end

/-! ## nets -/

structure Net (α : Type*) where
  nodes : List α
  /-- from a node to one below it -/
  links : List (α × α)

namespace Net

section
variable {α : Type*}

def keep (g : Net α) (K : α → Prop) [DecidablePred K] : Net α :=
  ⟨g.nodes.filter (K ·), g.links.filter fun l => K l.1 ∧ K l.2⟩

def Step (g : Net α) (a b : α) : Prop := (a, b) ∈ g.links ∧ a ∈ g.nodes ∧ b ∈ g.nodes

/-- a chain of links leads from the node `a` to `b` -/
def Below (g : Net α) (a b : α) : Prop := a ∈ g.nodes ∧ ReflTransGen g.Step a b

variable {g : Net α} {K : α → Prop} [DecidablePred K] {a b c : α}

theorem step_keep_iff : (g.keep K).Step a b ↔ g.Step a b ∧ K a ∧ K b := by
  simp only [Step, keep, List.mem_filter, decide_eq_true_eq]
  tauto

theorem mem_nodes_keep : a ∈ (g.keep K).nodes ↔ a ∈ g.nodes ∧ K a := by
  simp only [keep, List.mem_filter, decide_eq_true_eq]

theorem Below.start (h : g.Below a b) : a ∈ g.nodes := h.1

theorem Below.mem_nodes (h : g.Below a b) : b ∈ g.nodes := by
  rcases h.2.cases_tail with heq | ⟨c, -, hstep⟩
  · rw [heq]
    exact h.1
  · exact hstep.2.2

theorem Below.trans (hab : g.Below a b) (hbc : g.Below b c) : g.Below a c :=
  ⟨hab.1, hab.2.trans hbc.2⟩

theorem below_self (h : a ∈ g.nodes) : g.Below a a := ⟨h, .refl⟩

theorem Below.of_keep (h : (g.keep K).Below a b) : g.Below a b :=
  ⟨(mem_nodes_keep.mp h.1).1, ReflTransGen.mono (fun _ _ hstep => (step_keep_iff.mp hstep).1) _ _ h.2⟩

theorem Below.keep_mono {K' : α → Prop} [DecidablePred K'] (hKK' : ∀ x, K x → K' x)
    (h : (g.keep K).Below a b) : (g.keep K').Below a b := by
  obtain ⟨ha, hab⟩ := h
  rw [mem_nodes_keep] at ha
  refine ⟨mem_nodes_keep.mpr ⟨ha.1, hKK' a ha.2⟩, ReflTransGen.mono ?_ _ _ hab⟩
  intro x y hstep
  obtain ⟨hxy, hx, hy⟩ := step_keep_iff.mp hstep
  exact step_keep_iff.mpr ⟨hxy, hKK' x hx, hKK' y hy⟩

/-- **Upwards closed parts.**  When everything above a kept node is kept, the chains to the kept
nodes are the old ones. -/
theorem below_keep_iff (hup : ∀ x y, g.Below x y → K y → K x) :
    (g.keep K).Below a b ↔ g.Below a b ∧ K b := by
  constructor
  · intro h
    exact ⟨h.of_keep, (mem_nodes_keep.mp h.mem_nodes).2⟩
  · intro ⟨⟨ha, hab⟩, hb⟩
    refine ⟨mem_nodes_keep.mpr ⟨ha, hup a b ⟨ha, hab⟩ hb⟩, ?_⟩
    induction hab with
    | refl => exact .refl
    | @tail x y hax hxy ih =>
      have hx : K x := hup x y ⟨hxy.2.1, .single hxy⟩ hb
      exact (ih hx).tail (step_keep_iff.mpr ⟨hxy, hx, hb⟩)

theorem keep_keep (K' : α → Prop) [DecidablePred K'] :
    (g.keep K).keep K' = g.keep fun x => K x ∧ K' x := by
  simp only [keep, List.filter_filter]
  congr 1
  · apply List.filter_congr
    intro x _
    rw [Bool.and_comm, ← Bool.decide_and]
  · apply List.filter_congr
    intro l _
    rw [← Bool.decide_and, decide_eq_decide]
    tauto

theorem keep_congr {K' : α → Prop} [DecidablePred K'] (h : ∀ x, K x ↔ K' x) :
    g.keep K = g.keep K' := by
  simp only [keep, h]

/-! ## taking out what hangs below -/

/-- `t` hangs below one of the nodes that `S` names, or is one -/
def Hangs (g : Net α) (S : α → Prop) (t : α) : Prop := ∃ x, S x ∧ g.Below x t

variable {S S' : α → Prop}

theorem Hangs.trans (h : g.Hangs S a) (hab : g.Below a b) : g.Hangs S b := by
  obtain ⟨x, hx, hxa⟩ := h
  exact ⟨x, hx, hxa.trans hab⟩

/-- once the nodes below `S` are gone, the others hang as before -/
theorem hangs_keep_iff [DecidablePred fun x => ¬ g.Hangs S x] :
    (g.keep fun x => ¬ g.Hangs S x).Hangs S' b ↔ g.Hangs S' b ∧ ¬ g.Hangs S b := by
  have hup : ∀ x y, g.Below x y → ¬ g.Hangs S y → ¬ g.Hangs S x := by
    intro x y hxy hy hx
    exact hy (hx.trans hxy)
  constructor
  · intro ⟨x, hx, hxb⟩
    obtain ⟨hxb, hb⟩ := (below_keep_iff hup).mp hxb
    exact ⟨⟨x, hx, hxb⟩, hb⟩
  · intro ⟨⟨x, hx, hxb⟩, hb⟩
    exact ⟨x, hx, (below_keep_iff hup).mpr ⟨hxb, hb⟩⟩

theorem not_hangs_or_iff [DecidablePred fun x => ¬ g.Hangs S x] :
    (¬ g.Hangs S b ∧ ¬ (g.keep fun x => ¬ g.Hangs S x).Hangs S' b) ↔
      ¬ g.Hangs (fun x => S x ∨ S' x) b := by
  rw [hangs_keep_iff]
  have hor : g.Hangs (fun x => S x ∨ S' x) b ↔ g.Hangs S b ∨ g.Hangs S' b := by
    simp only [Hangs, or_and_right, exists_or]
  rw [hor]
  tauto

/-! ## what the loop collects -/

variable [DecidableEq α]

def children (g : Net α) (a : α) : List α := g.nodes.filter fun c => (a, c) ∈ g.links

/-- what hangs below a node, added to a set that is closed downwards -/
def descendFrom (g : Net α) (done : List α) (a : α) : List α :=
  walk g.children g.nodes.length (if a ∈ done then [] else [a]) done

/-- what hangs below one of the nodes, these included -/
def descend (g : Net α) (starts : List α) : List α := starts.foldl g.descendFrom []

theorem mem_children_iff : c ∈ g.children a ↔ c ∈ g.nodes ∧ (a, c) ∈ g.links := by
  simp only [children, List.mem_filter, decide_eq_true_eq]

theorem below_iff_reach (ha : a ∈ g.nodes) :
    g.Below a b ↔ ReflTransGen (fun x c => c ∈ g.children x) a b := by
  constructor
  · intro h
    exact ReflTransGen.mono (fun x y hstep => mem_children_iff.mpr ⟨hstep.2.2, hstep.1⟩) _ _ h.2
  · intro h
    induction h using ReflTransGen.head_induction_on with
    | refl => exact below_self ha
    | head hac hcb ih =>
      obtain ⟨hc, hlink⟩ := mem_children_iff.mp hac
      exact ⟨ha, (ih hc).2.head ⟨hlink, ha, hc⟩⟩

structure Collected (g : Net α) (done : List α) : Prop where
  nodup : done.Nodup
  subset : ∀ x ∈ done, x ∈ g.nodes
  closed : ∀ x ∈ done, ∀ y, g.Below x y → y ∈ done

theorem Collected.visiting {done : List α} (h : g.Collected done) {stage : List α}
    (hnodup : stage.Nodup) (hstage : ∀ x ∈ stage, x ∈ g.nodes ∧ x ∉ done) :
    Visiting g.children g.nodes stage done where
  stage_nodup := hnodup
  done_nodup := h.nodup
  disjoint := fun x hx => (hstage x hx).2
  stage_subset := fun x hx => (hstage x hx).1
  done_subset := h.subset
  closed := by
    intro x hx c hc
    obtain ⟨hnode, hlink⟩ := mem_children_iff.mp hc
    exact .inl (h.closed x hx c ⟨h.subset x hx, .single ⟨hlink, h.subset x hx, hnode⟩⟩)

theorem walk_nodup {next : α → List α} {nodes : List α} (hnext : ∀ x, ∀ c ∈ next x, c ∈ nodes)
    {fuel : Nat} {stage done : List α} (h : Visiting next nodes stage done) :
    (walk next fuel stage done).Nodup := by
  induction fuel generalizing stage done with
  | zero => exact h.done_nodup
  | succ fuel ih =>
    cases stage with
    | nil => exact h.done_nodup
    | cons x stage => exact ih (h.step hnext)

theorem mem_descendFrom_iff {done : List α} (h : g.Collected done) (ha : a ∈ g.nodes) :
    b ∈ g.descendFrom done a ↔ b ∈ done ∨ g.Below a b := by
  unfold descendFrom
  have hnext : ∀ x, ∀ c ∈ g.children x, c ∈ g.nodes := fun x c hc => (mem_children_iff.mp hc).1
  by_cases hdone : a ∈ done
  · rw [if_pos hdone, mem_walk_iff hnext (h.visiting List.nodup_nil (by simp)) (Nat.le_add_right ..)]
    simp only [List.not_mem_nil, false_and, exists_false, or_false]
    exact ⟨.inl, fun hb => hb.elim id (h.closed a hdone b)⟩
  · have hstage : ∀ x ∈ [a], x ∈ g.nodes ∧ x ∉ done := by
      intro x hx
      rw [List.mem_singleton.mp hx]
      exact ⟨ha, hdone⟩
    rw [if_neg hdone, mem_walk_iff hnext (h.visiting (List.nodup_singleton a) hstage)
      (Nat.le_add_right ..), below_iff_reach ha]
    simp only [List.mem_singleton, exists_eq_left]

theorem Collected.descendFrom {done : List α} (h : g.Collected done) (ha : a ∈ g.nodes) :
    g.Collected (g.descendFrom done a) where
  nodup := by
    unfold Net.descendFrom
    have hnext : ∀ x, ∀ c ∈ g.children x, c ∈ g.nodes := fun x c hc => (mem_children_iff.mp hc).1
    refine walk_nodup hnext (h.visiting ?_ ?_)
    · split
      · exact List.nodup_nil
      · exact List.nodup_singleton a
    · intro x hx
      split at hx
      · cases hx
      · rw [List.mem_singleton.mp hx]
        exact ⟨ha, ‹_›⟩
  subset := by
    intro x hx
    rcases (mem_descendFrom_iff h ha).mp hx with hx | hx
    · exact h.subset x hx
    · exact hx.mem_nodes
  closed := by
    intro x hx y hxy
    refine (mem_descendFrom_iff h ha).mpr ?_
    rcases (mem_descendFrom_iff h ha).mp hx with hx | hx
    · exact .inl (h.closed x hx y hxy)
    · exact .inr (hx.trans hxy)

theorem mem_descend_iff {starts : List α} (hstarts : ∀ x ∈ starts, x ∈ g.nodes) :
    b ∈ g.descend starts ↔ ∃ x ∈ starts, g.Below x b := by
  have hrun : ∀ done, g.Collected done →
      (b ∈ starts.foldl g.descendFrom done ↔ b ∈ done ∨ ∃ x ∈ starts, g.Below x b) := by
    induction starts with
    | nil =>
      intro done _
      simp
    | cons x starts ih =>
      intro done hdone
      rw [List.forall_mem_cons] at hstarts
      rw [List.foldl_cons, ih hstarts.2 _ (hdone.descendFrom hstarts.1),
        mem_descendFrom_iff hdone hstarts.1, or_assoc]
      simp only [List.mem_cons, exists_eq_or_imp]
  refine (hrun [] ⟨List.nodup_nil, by simp, by simp⟩).trans ?_
  simp only [List.not_mem_nil, false_or]

end

end Net
