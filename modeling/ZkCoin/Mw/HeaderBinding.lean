import ZkCoin.Mw.ApplyBlock
import ZkCoin.Mw.Validate

/-!
# What the header of an extension block binds

Two extension blocks with one header hash have one header, as long as the hash has no collision among
what is hashed for them.  The header in turn binds the serialized kernels, hence the fees, and on a
given view the outputs and which coins are spent.  It does not bind the proofs and signatures, nor the
peg-outs of each kernel: a kernel with an empty list of peg-outs is serialized as if it had none.

* `Header.serialize_inj`        — the header.
* `kernels_serialize_eq`        — the kernels as bytes, and `feeSum_eq`.
* `spentIds_iff`                — the coins spent on a view.
-/

open Bytes Serialize

namespace Mw

variable {blake3 : Bytes → Uint256}

/-! ## the header -/

theorem fixedBytes_append_inj {n : Nat} {a b : FixedBytes n} {x y : Bytes}
    (h : a.data ++ x = b.data ++ y) : a = b ∧ x = y := by
  obtain ⟨hab, hxy⟩ := List.append_inj h (by rw [a.data_length, b.data_length])
  cases a
  cases b
  cases hab
  exact ⟨rfl, hxy⟩

theorem hash_append_inj {a b : Uint256} {x y : Bytes} (h : a.data ++ x = b.data ++ y) :
    a = b ∧ x = y := by
  obtain ⟨hab, hxy⟩ := List.append_inj h (by rw [a.data_length, b.data_length])
  exact ⟨Uint256.data_inj hab, hxy⟩

theorem Header.serialize_inj {h h' : Header} (heq : h.serialize = h'.serialize) : h = h' := by
  unfold Header.serialize at heq
  simp only [List.append_assoc] at heq
  have hrange := h.height_range h.height rfl
  have hrange' := h'.height_range h'.height rfl
  obtain ⟨hheight, heq⟩ := varInt_prefixFree _ _ _ _ (show h.height.toNat < 2 ^ 64 by omega)
    (show h'.height.toNat < 2 ^ 64 by omega) heq
  obtain ⟨houtput, heq⟩ := hash_append_inj heq
  obtain ⟨hkernel, heq⟩ := hash_append_inj heq
  obtain ⟨hleafset, heq⟩ := hash_append_inj heq
  obtain ⟨hoffset, heq⟩ := fixedBytes_append_inj heq
  obtain ⟨hstealth, heq⟩ := fixedBytes_append_inj heq
  obtain ⟨htxos, heq⟩ := varInt_prefixFree _ _ _ _ h.numTXOs_range h'.numTXOs_range heq
  have hkernels := varInt_prefixFree.inj h.numKernels_range h'.numKernels_range heq
  have hheight' : h.height = h'.height := by omega
  cases h
  cases h'
  simp_all

theorem header_eq_of_getHash {h h' : Header}
    (hfree : CollisionFree blake3 [h.serialize, h'.serialize])
    (heq : h.getHash blake3 = h'.getHash blake3) : h = h' :=
  Header.serialize_inj (hfree _ (by simp) _ (by simp) heq)

/-! ## leaves and kernels -/

theorem leafPreimage_inj {i : Nat} {a b : Bytes} (h : leafPreimage i a = leafPreimage i b) :
    a = b :=
  byteVector_inj (List.append_cancel_left h)

def leafPreimagesFrom (first : Nat) (datas : List Bytes) : List Bytes :=
  datas.mapIdx fun i data => leafPreimage (first + i) data

def Block.kernelLeafPreimages (block : Block) : List Bytes :=
  leafPreimagesFrom 0 (block.body.kernels.map Kernel.serialize)

/-- the pairs of nodes that are hashed in a range, its root included -/
def hashedNodes (blake3 : Bytes → Uint256) (nodes : List Uint256) : List (Nat × Uint256 × Uint256) :=
  Mmr.hashedPairs (calcParentHash blake3) Uint256.isNull .null nodes

def Block.kernelNodes (blake3 : Bytes → Uint256) (block : Block) : List Uint256 :=
  match block.body.kernels.foldlM (fun mmr kernel => mmr.add blake3 kernel.serialize)
      MemMmr.empty with
  | .ok mmr => mmr.hashes
  | .error _ => []

theorem KernelRange.nodes_eq {block : Block} {nodes : List Uint256}
    (h : KernelRange blake3 block nodes) : block.kernelNodes blake3 = nodes := by
  obtain ⟨mmr, hrun, hrange, -⟩ := kernelMmr_run blake3 block.body.kernels
  rw [Block.kernelNodes, hrun]
  exact hrange.unique _ h.range

theorem leafHashesFrom_inj {first : Nat} {datas datas' : List Bytes}
    (hfree : CollisionFree blake3 (leafPreimagesFrom first datas ++ leafPreimagesFrom first datas'))
    (h : leafHashesFrom blake3 first datas = leafHashesFrom blake3 first datas') :
    datas = datas' := by
  have hmem : ∀ (ds : List Bytes) i d, ds[i]? = some d →
      leafPreimage (first + i) d ∈ leafPreimagesFrom first ds := by
    intro ds i d hd
    refine List.mem_iff_getElem?.mpr ⟨i, ?_⟩
    rw [leafPreimagesFrom, List.getElem?_mapIdx, hd]
    rfl
  apply List.ext_getElem?
  intro i
  have hi := congrArg (fun l => l[i]?) h
  simp only [leafHashesFrom, List.getElem?_mapIdx] at hi
  cases hd : datas[i]? with
  | none =>
    rw [hd] at hi
    exact (Option.map_eq_none_iff.mp hi.symm).symm
  | some d =>
    rw [hd] at hi
    obtain ⟨d', hd', hhash⟩ := Option.map_eq_some_iff.mp hi.symm
    have hpre := hfree _ (List.mem_append_left _ (hmem datas i d hd)) _
      (List.mem_append_right _ (hmem datas' i d' hd')) hhash.symm
    rw [hd', leafPreimage_inj hpre]

theorem kernels_serialize_eq {block block' : Block} {nodes nodes' : List Uint256}
    (h : KernelRange blake3 block nodes) (h' : KernelRange blake3 block' nodes')
    (hheader : block.header = block'.header)
    (hleaves : CollisionFree blake3 (block.kernelLeafPreimages ++ block'.kernelLeafPreimages))
    (hnodes : Mmr.PairsApart (calcParentHash blake3)
      (hashedNodes blake3 nodes ++ hashedNodes blake3 nodes')) :
    block.body.kernels.map Kernel.serialize = block'.body.kernels.map Kernel.serialize := by
  have hhashes : leafHashesFrom blake3 0 (block.body.kernels.map Kernel.serialize) =
      leafHashesFrom blake3 0 (block'.body.kernels.map Kernel.serialize) := by
    refine h.range.leaves_eq_of_bag_eq h'.range ?_ Uint256.isNull_iff hnodes ?_
    · rw [leafHashesFrom, leafHashesFrom, List.length_mapIdx, List.length_mapIdx, List.length_map,
        List.length_map, ← h.numKernels_eq, ← h'.numKernels_eq, hheader]
    · rw [← h.kernelRoot_eq, ← h'.kernelRoot_eq, hheader]
  exact leafHashesFrom_inj hleaves hhashes

theorem Kernel.fee_eq_of_serialize {k k' : Kernel} (h : k.serialize = k'.serialize) :
    k.fee = k'.fee := by
  unfold Kernel.serialize at h
  simp only [List.append_assoc, List.singleton_append] at h
  obtain ⟨hfeatures, h⟩ := List.cons.inj h
  have hsome : k.fee.isSome = k'.fee.isSome := by rw [k.fee_iff, k'.fee_iff, hfeatures]
  cases hfee : k.fee with
  | none =>
    rw [hfee] at hsome
    exact (Option.isSome_eq_false_iff.mp hsome.symm |> Option.isNone_iff_eq_none.mp).symm
  | some fee =>
    rw [hfee] at hsome
    obtain ⟨fee', hfee'⟩ := Option.isSome_iff_exists.mp hsome.symm
    rw [hfee, hfee'] at h
    have hrange := k.fee_range fee hfee
    have hrange' := k'.fee_range fee' hfee'
    obtain ⟨heq, -⟩ := varInt_prefixFree _ _ _ _ (show fee.toNat < 2 ^ 64 by omega)
      (show fee'.toNat < 2 ^ 64 by omega) h
    rw [hfee', show fee = fee' by omega]

theorem fees_eq_of_serialize {ks ks' : List Kernel}
    (h : ks.map Kernel.serialize = ks'.map Kernel.serialize) :
    ks.map Kernel.getFee = ks'.map Kernel.getFee := by
  induction ks generalizing ks' with
  | nil =>
    rw [List.map_nil, eq_comm, List.map_eq_nil_iff] at h
    rw [h]
  | cons k ks ih =>
    cases ks' with
    | nil => cases h
    | cons k' ks' =>
      obtain ⟨hk, hks⟩ := List.cons.inj h
      rw [List.map_cons, List.map_cons, ih hks, Kernel.getFee, Kernel.getFee,
        Kernel.fee_eq_of_serialize hk]

/-! ## outputs and spent coins on a view -/

/-- what is hashed for the leaves of the outputs of a block on `first` leaves -/
def TxBody.outputLeafPreimages (blake3 : Bytes → Uint256) (first : Nat) (body : TxBody) :
    List Bytes :=
  leafPreimagesFrom first ((body.getOutputIds blake3).map Uint256.data)

/-- nothing that is hashed for the ranges and leaf sets of the two views collides -/
structure ViewsApart (blake3 : Bytes → Uint256) (v v' : View) : Prop where
  nodes : Mmr.PairsApart (calcParentHash blake3)
    (hashedNodes blake3 v.nodes ++ hashedNodes blake3 v'.nodes)
  leafSets : CollisionFree blake3 [v.leafSetBytes, v'.leafSetBytes]

section
variable {v v' : View} {before after after' : CoinState} {body body' : TxBody} {header : Header}

theorem leaves_eq_of_checkHeader (hv : Shows blake3 v after) (hv' : Shows blake3 v' after')
    (hapart : ViewsApart blake3 v v') (hcheck : v.checkHeader blake3 header = .ok ())
    (hcheck' : v'.checkHeader blake3 header = .ok ()) : after.leaves = after'.leaves := by
  obtain ⟨hroot, hnum, -⟩ := checkHeader_ok hcheck
  obtain ⟨hroot', hnum', -⟩ := checkHeader_ok hcheck'
  rw [hv.range.outputRoot_eq] at hroot
  rw [hv'.range.outputRoot_eq] at hroot'
  rw [← hv.leaves_eq, ← hv'.leaves_eq]
  refine hv.range.range.leaves_eq_of_bag_eq hv'.range.range ?_ Uint256.isNull_iff hapart.nodes ?_
  · rw [← hv.range.numLeaves_eq, ← hv'.range.numLeaves_eq, ← hnum, ← hnum']
  · exact (Except.ok.inj hroot).trans (Except.ok.inj hroot').symm

theorem unspent_eq_of_checkHeader (hv : Shows blake3 v after) (hv' : Shows blake3 v' after')
    (hs : after.Sound blake3) (hs' : after'.Sound blake3) (hapart : ViewsApart blake3 v v')
    (hcheck : v.checkHeader blake3 header = .ok ())
    (hcheck' : v'.checkHeader blake3 header = .ok ()) : after.unspent = after'.unspent := by
  obtain ⟨-, -, hroot⟩ := checkHeader_ok hcheck
  obtain ⟨-, -, hroot'⟩ := checkHeader_ok hcheck'
  have hleaves := leaves_eq_of_checkHeader hv hv' hapart hcheck hcheck'
  have hnext : after.next = after'.next := by rw [hs.next_eq, hs'.next_eq, hleaves]
  have hbytes : v.leafSetBytes = v'.leafSetBytes :=
    hapart.leafSets _ (by simp) _ (by simp) (hroot.symm.trans hroot')
  rw [View.leafSetBytes, View.leafSetBytes, hv.next_eq, hv'.next_eq, ← hnext] at hbytes
  funext i
  rcases Nat.lt_or_ge i after.next with hi | hi
  · have hbyte : v.getByte (i / 8) = v'.getByte (i / 8) :=
      List.map_inj_left.mp hbytes (i / 8) (List.mem_range.mpr (by omega))
    rw [← hv.unspent_eq, ← hv'.unspent_eq, View.containsLeaf, View.containsLeaf, BitTable.contains,
      BitTable.contains, hbyte]
  · -- beyond the next leaf nothing is unspent
    have hnone : after.unspent i = false := by
      rw [Bool.eq_false_iff]
      intro hunspent
      have := hs.unspent_lt hunspent
      omega
    have hnone' : after'.unspent i = false := by
      rw [Bool.eq_false_iff]
      intro hunspent
      have := hs'.unspent_lt hunspent
      omega
    rw [hnone, hnone']

/-- **Spent coins.**  Two blocks that lead from one state to states under one header spend the same
coins. -/
theorem spentIds_iff (hv : Shows blake3 v after) (hv' : Shows blake3 v' after')
    (hs : after.Sound blake3) (hs' : after'.Sound blake3) (hapart : ViewsApart blake3 v v')
    (hcheck : v.checkHeader blake3 header = .ok ()) (hcheck' : v'.checkHeader blake3 header = .ok ())
    (happlies : Applies blake3 before body after) (happlies' : Applies blake3 before body' after')
    (hfree : CollisionFree blake3 (body.outputLeafPreimages blake3 before.leaves.length ++
      body'.outputLeafPreimages blake3 before.leaves.length)) (id : Uint256) :
    id ∈ body.getSpentIds ↔ id ∈ body'.getSpentIds := by
  have hleaves := leaves_eq_of_checkHeader hv hv' hapart hcheck hcheck'
  rw [happlies.leaves_eq, happlies'.leaves_eq] at hleaves
  have hdata := leafHashesFrom_inj hfree (List.append_cancel_left hleaves)
  have hids : body.getOutputIds blake3 = body'.getOutputIds blake3 :=
    List.map_injective_iff.mpr (fun _ _ => Uint256.data_inj) hdata
  rw [happlies.spent_iff, happlies'.spent_iff,
    unspent_eq_of_checkHeader hv hv' hs hs' hapart hcheck hcheck']
  unfold Placed
  rw [hids]

end

end Mw
