import ZkCoin.Mempool.Policy

/-!
# The miner of extension blocks

`MWEB::Miner` takes extension-block transactions while a template is put together, and then assembles
the HogEx: the previous HogEx output and the peg-ins go in, the new HogEx output and the peg-outs go
out.

* `Miner.addMwebTransaction`  — one more transaction.
* `Miner.addHogExTransaction` — the HogEx and the extension block.
* `Miner.Staged`              — the outputs are the peg-outs of the staged transactions.
-/

open Bytes Script Serialize

namespace Mining

/-- the members of `MWEB::Miner` -/
structure Miner where
  mwebBuilder : Mw.BlockBuilder
  mwebAmountChange : Int
  hogexFees : Int
  hogexSigops : Nat
  hogexInputs : List CTxIn
  hogexOutputs : List CTxOut

structure MinerTools where
  hash256 : Bytes → Uint256
  blake3 : Bytes → Uint256
  crypto : Mw.Crypto
  pedersen : Mw.Pedersen

/-- `Miner::NewBlock` -/
def Miner.newBlock (nHeight : Int) (view : Mw.View) : Miner :=
  ⟨.new nHeight view, 0, 0, 0, [], []⟩

/-- `Miner::GetHogExSigOpCost` -/
def getHogExSigOpCost (tx : CTransaction) : Nat :=
  ((Consensus.mwebPegOuts tx).map fun pegout =>
    Consensus.witnessScaleFactor * getSigOpCount false pegout.scriptPubKey).sum

/-- a sum of amounts that are asserted to be in range; nothing when the sum leaves it -/
def sumInRange : List Int → Int → Except Mw.Fault (Option Int)
  | [], total => .ok (some total)
  | v :: vs, total =>
    if !moneyRange v then .error .assertion
    else if !moneyRange (total + v) then .ok none
    else sumInRange vs (total + v)

def erasePegIn (pegins : List Mw.PegInCoin) (pegin : Mw.PegInCoin) : Option (List Mw.PegInCoin) :=
  if pegin ∈ pegins then some (pegins.erase pegin) else none

/-- `Miner::ValidatePegIns`: the outputs name each peg-in of the kernels once -/
def validatePegIns (tx : CTransaction) (pegins : List Mw.PegInCoin) : Bool :=
  (Mweb.blockPegins [tx]).foldlM erasePegIn pegins.dedup == some []

def peginAmounts (tx : CTransaction) : List Int :=
  (tx.vout.filter fun txout => isMwebPegin txout.scriptPubKey).map CTxOut.nValue

def peginInput (out : Uint256 × Nat) : CTxIn :=
  ⟨⟨out.1, UInt32.ofNat out.2⟩, [], Consensus.sequenceFinal, []⟩

section
variable (tools : MinerTools)

/-- `Miner::AddMWEBTransaction`: the miner with the transaction, nothing when it was refused, and a
fault for a failed assertion -/
def Miner.addMwebTransaction (m : Miner) (tx : CTransaction) : Except Mw.Fault (Option Miner) :=
  match tx.mwebTx with
  | none => .error .assertion
  | some mwebTx =>
    let pegins := mwebTx.body.getPegIns tools.blake3
    if !validatePegIns tx pegins then .ok none
    else
      match sumInRange (peginAmounts tx) 0,
        sumInRange (mwebTx.body.getPegOuts.map Mw.PegOutCoin.amount) 0 with
      | .error fault, _ => .error fault
      | .ok none, _ => .ok none
      | .ok (some _), .error fault => .error fault
      | .ok (some _), .ok none => .ok none
      | .ok (some peginAmount), .ok (some pegoutAmount) =>
        match mwebTx.body.getTotalFee with
        | none => .ok none
        | some txFee =>
          if !moneyRange txFee then .ok none
          else
            match m.mwebBuilder.addTransaction tools.blake3 tools.crypto tools.pedersen mwebTx
              pegins with
            | .error fault => .error fault
            | .ok none => .ok none
            | .ok (some builder) => .ok (some
              { mwebBuilder := builder
                mwebAmountChange := m.mwebAmountChange + (peginAmount - (pegoutAmount + txFee))
                hogexFees := m.hogexFees + txFee
                hogexSigops := m.hogexSigops + getHogExSigOpCost tx
                hogexInputs := m.hogexInputs ++
                  (Mweb.peginOutputs tools.hash256 tools.blake3 tx).map peginInput
                hogexOutputs := m.hogexOutputs ++ mwebTx.body.getPegOuts.map Policy.pegoutOutput })

/-- `OP_8` -/
def op8 : UInt8 := 0x58

def hogAddr (hash : Uint256) (nValue : Int) : CTxOut := ⟨nValue, op8 :: pushData hash.data⟩

/-- the HogEx: an output of the previous HogEx and the peg-ins in, the new output and the peg-outs out -/
def hogExTransaction (m : Miner) (prev : CBlockIndex) (hash : Uint256) : CTransaction where
  vin := (if prev.prevMwebEnabled then [peginInput (prev.hogexHash, 0)] else []) ++ m.hogexInputs
  vout := hogAddr hash ((if prev.prevMwebEnabled then prev.mwebAmount else 0) + m.mwebAmountChange) ::
    m.hogexOutputs
  nVersion := 2
  nLockTime := 0
  mwebTx := none
  hogEx := true

/-- `Miner::AddHogExTransaction`; nothing when an exception or a failed assertion leaves it -/
def Miner.addHogExTransaction (m : Miner) (prev : CBlockIndex) : Option (CTransaction × Mw.Block) := do
  let mwebBlock ← m.mwebBuilder.buildBlock tools.blake3 tools.pedersen
  guard (moneyRange ((if prev.prevMwebEnabled then prev.mwebAmount else 0) + m.mwebAmountChange))
  some (hogExTransaction m prev (mwebBlock.header.getHash tools.blake3), mwebBlock)

end

/-! ## what is staged -/

def Miner.pegouts (m : Miner) : List Mw.PegOutCoin :=
  m.mwebBuilder.stagedTxs.flatMap fun mwebTx => mwebTx.body.getPegOuts

/-- the outputs of the HogEx are the peg-outs of the staged transactions, its inputs carry no witness,
and every staged transaction was one of the mempool -/
structure Miner.Staged (mempool : List CTransaction) (m : Miner) : Prop where
  outputs_eq : m.hogexOutputs = m.pegouts.map Policy.pegoutOutput
  inputs_bare : ∀ txin ∈ m.hogexInputs, txin.scriptWitness = []
  staged_mem : ∀ mwebTx ∈ m.mwebBuilder.stagedTxs, ∃ tx ∈ mempool, tx.mwebTx = some mwebTx

theorem Miner.newBlock_staged (mempool : List CTransaction) (nHeight : Int) (view : Mw.View) :
    (newBlock nHeight view).Staged mempool := ⟨rfl, nofun, nofun⟩

theorem Miner.addMwebTransaction_ok {tools : MinerTools} {m m' : Miner} {tx : CTransaction}
    (h : m.addMwebTransaction tools tx = .ok (some m')) :
    ∃ mwebTx, tx.mwebTx = some mwebTx ∧
      m'.mwebBuilder.stagedTxs = m.mwebBuilder.stagedTxs ++ [mwebTx] ∧
      m'.hogexOutputs = m.hogexOutputs ++ mwebTx.body.getPegOuts.map Policy.pegoutOutput ∧
      m'.hogexInputs = m.hogexInputs ++
        (Mweb.peginOutputs tools.hash256 tools.blake3 tx).map peginInput := by
  unfold addMwebTransaction at h
  split at h
  · cases h
  · rename_i mwebTx hmweb
    dsimp only at h
    split at h
    · cases h
    · split at h
      · cases h
      · cases h
      · cases h
      · cases h
      · split at h
        · cases h
        · split at h
          · cases h
          · split at h
            · cases h
            · cases h
            · rename_i builder hadd
              obtain rfl := Option.some.inj (Except.ok.inj h)
              exact ⟨mwebTx, hmweb, Mw.BlockBuilder.stagedTxs_of_addTransaction hadd, rfl, rfl⟩

theorem Miner.Staged.add {mempool : List CTransaction} {tools : MinerTools} {m m' : Miner}
    {tx : CTransaction} (hm : m.Staged mempool) (htx : tx ∈ mempool)
    (h : m.addMwebTransaction tools tx = .ok (some m')) : m'.Staged mempool := by
  obtain ⟨mwebTx, hmweb, hstaged, hout, hin⟩ := addMwebTransaction_ok h
  refine ⟨?_, ?_, ?_⟩
  · rw [hout, hm.outputs_eq, pegouts, pegouts, hstaged, List.flatMap_append, List.map_append]
    simp
  · rw [hin]
    intro txin hmem
    rcases List.mem_append.mp hmem with hmem | hmem
    · exact hm.inputs_bare txin hmem
    · obtain ⟨out, -, rfl⟩ := List.mem_map.mp hmem
      rfl
  · rw [hstaged]
    intro t ht
    rcases List.mem_append.mp ht with ht | ht
    · exact hm.staged_mem t ht
    · obtain rfl := List.mem_singleton.mp ht
      exact ⟨tx, htx, hmweb⟩

end Mining
