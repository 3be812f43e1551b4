import CardanoSdk.Projection.Mappers

/-!
What a block's mappers take from a transaction that failed phase-2 validation: `withMint`
and `withHandles` do not leave it out.
-/

namespace CardanoSdk.Projection

open Lib
open InputSelection (AssetId TransactionId PaymentAddress TokenMap TxOut)
open Wallet (TxIn)

variable {Certificate : Type}

/-- Only the mint, the certificates and the contents of the outputs differ. -/
structure DiffersUnspent (tx tx' : OnChainTx Certificate) : Prop where
  rest : tx' = { tx with
    body := { tx.body with
      mint := tx'.body.mint
      certificates := tx'.body.certificates
      outputs := tx'.body.outputs } }
  outputs : tx'.body.outputs.length = tx.body.outputs.length

structure MappedBlock (Certificate : Type) where
  utxo : WithUtxo
  mint : List Mint
  certificates : List (OnChainCertificate Certificate)
  handles : List HandleOwnership

section Mapped

variable (hash : List UInt8 → List UInt8) (reader : AssetNameReader) (policyIds : List (List UInt8))

def mappedBlock (block : Block Certificate) : MappedBlock Certificate :=
  let utxo := withUtxo hash block
  let mint := withMint block
  { utxo
    mint
    certificates := blockCertificates block
    handles := withHandles reader policyIds (cip67ByAssetId reader utxo mint) block }

end Mapped

def Block.withTx (block : Block Certificate) (before : List (OnChainTx Certificate))
    (tx : OnChainTx Certificate) (after : List (OnChainTx Certificate)) : Block Certificate :=
  { block with body := before ++ tx :: after }

section Failed

variable {hash : List UInt8 → List UInt8} {reader : AssetNameReader}
  {policyIds : List (List UInt8)} {block : Block Certificate}
  {before after : List (OnChainTx Certificate)} {tx tx' : OnChainTx Certificate}

theorem DiffersUnspent.inputSource (h : DiffersUnspent tx tx') : tx'.inputSource = tx.inputSource := by
  rw [h.rest]

theorem inputSource_of_failed (hfailed : isPhase2ValidationErrTx tx = true) :
    tx.inputSource = .collaterals := of_decide_eq_true hfailed

theorem withUtxo_withTx (hfailed : isPhase2ValidationErrTx tx = true) (h : DiffersUnspent tx tx') :
    withUtxo hash (block.withTx before tx' after) = withUtxo hash (block.withTx before tx after) := by
  have hsource : ¬tx.inputSource = .inputs := by
    rw [inputSource_of_failed hfailed]
    exact InputSource.noConfusion
  have hproduced : producedOf hash tx' = producedOf hash tx := by
    rw [producedOf, producedOf, h.inputSource, if_neg hsource, if_neg hsource, h.outputs, h.rest]
    rfl
  have hconsumed : consumedOf tx' = consumedOf tx := by
    rw [consumedOf, consumedOf, h.inputSource, if_neg hsource, if_neg hsource, h.rest]
  rw [withUtxo, withUtxo, Block.withTx, Block.withTx]
  simp only [List.flatMap_append, List.flatMap_cons, hproduced, hconsumed]

theorem blockCertificates_withTx (hfailed : isPhase2ValidationErrTx tx = true)
    (h : DiffersUnspent tx tx') :
    blockCertificates (block.withTx before tx' after) =
      blockCertificates (block.withTx before tx after) := by
  have hfailed' : isPhase2ValidationErrTx tx' = true := by
    rw [isPhase2ValidationErrTx, h.inputSource]
    exact hfailed
  rw [blockCertificates, blockCertificates, Block.withTx, Block.withTx]
  simp only [List.filter_append, List.filter_cons, hfailed, hfailed', Bool.not_true,
    Bool.false_eq_true, if_false]

theorem mintsOf_eq_iff (h : DiffersUnspent tx tx') (blockNo txIndex : ℕ) :
    mintsOf blockNo tx' txIndex = mintsOf blockNo tx txIndex ↔
      mintEntries tx' = mintEntries tx := by
  have hmetadata : tx'.txMetadata = tx.txMetadata := by rw [h.rest]
  rw [mintsOf, mintsOf, hmetadata]
  apply Function.Injective.eq_iff
  apply List.map_injective_iff.mpr
  rintro ⟨assetId, quantity⟩ ⟨assetId', quantity'⟩ heq
  rw [Mint.mk.injEq] at heq
  exact Prod.ext heq.1 heq.2.2.2.1

theorem withMint_withTx_iff (h : DiffersUnspent tx tx') :
    withMint (block.withTx before tx' after) = withMint (block.withTx before tx after) ↔
      mintEntries tx' = mintEntries tx := by
  rw [withMint, withMint, Block.withTx, Block.withTx]
  simp only [List.zipIdx_append, List.zipIdx_cons, List.flatMap_append, List.flatMap_cons]
  rw [List.append_right_inj, List.append_left_inj]
  exact mintsOf_eq_iff h _ _

theorem withHandles_withTx (hfailed : isPhase2ValidationErrTx tx = true)
    (h : DiffersUnspent tx tx') (hmint : mintEntries tx' = mintEntries tx)
    (houtputs : ∀ cip67Assets,
      getOutputHandles reader policyIds cip67Assets tx'.body.outputs =
        getOutputHandles reader policyIds cip67Assets tx.body.outputs) :
    mappedBlock hash reader policyIds (block.withTx before tx' after) =
      mappedBlock hash reader policyIds (block.withTx before tx after) := by
  have hadd (cip67Assets : JsMap AssetId CIP67Asset) (handles : JsMap String HandleOwnership) :
      addHandles reader policyIds cip67Assets handles tx' =
        addHandles reader policyIds cip67Assets handles tx := by
    rw [addHandles, addHandles, hmint, houtputs]
  rw [mappedBlock, mappedBlock, withUtxo_withTx hfailed h, blockCertificates_withTx hfailed h,
    (withMint_withTx_iff h).mpr hmint]
  congr 1
  rw [withHandles, withHandles, Block.withTx, Block.withTx]
  simp only [List.foldl_append, List.foldl_cons, hadd]

def otherMint (tx : OnChainTx Certificate) : Option TokenMap :=
  if mintEntries tx = [] then some (JsMap.ofList [(List.replicate 28 0, 1)]) else none

theorem entries_otherMint (tx : OnChainTx Certificate) :
    (otherMint tx).elim [] JsMap.entries ≠ mintEntries tx := by
  rw [otherMint]
  by_cases hempty : mintEntries tx = []
  · rw [if_pos hempty, hempty]
    exact List.cons_ne_nil _ _
  · rw [if_neg hempty]
    exact Ne.symm hempty

end Failed

section Leak

variable (hash : List UInt8 → List UInt8) (reader : AssetNameReader) (policyIds : List (List UInt8))

/-- Of a failed transaction the certificates and outputs that differ are never
mapped, and nothing is as long as the mint and the handles in the outputs are the
same. But in every block another mint is mapped. -/
theorem failed_transaction_leaks (block : Block Certificate)
    (before after : List (OnChainTx Certificate)) (tx : OnChainTx Certificate)
    (hfailed : isPhase2ValidationErrTx tx = true) :
    (∀ tx', DiffersUnspent tx tx' →
      withUtxo hash (block.withTx before tx' after) =
          withUtxo hash (block.withTx before tx after) ∧
        blockCertificates (block.withTx before tx' after) =
          blockCertificates (block.withTx before tx after) ∧
        (withMint (block.withTx before tx' after) = withMint (block.withTx before tx after) ↔
          mintEntries tx' = mintEntries tx) ∧
        (mintEntries tx' = mintEntries tx →
          (∀ cip67Assets, getOutputHandles reader policyIds cip67Assets tx'.body.outputs =
            getOutputHandles reader policyIds cip67Assets tx.body.outputs) →
          mappedBlock hash reader policyIds (block.withTx before tx' after) =
            mappedBlock hash reader policyIds (block.withTx before tx after))) ∧
    ¬∀ tx', DiffersUnspent tx tx' →
      mappedBlock hash reader policyIds (block.withTx before tx' after) =
        mappedBlock hash reader policyIds (block.withTx before tx after) := by
  constructor
  · intro tx' h
    exact ⟨withUtxo_withTx hfailed h, blockCertificates_withTx hfailed h, withMint_withTx_iff h,
      withHandles_withTx hfailed h⟩
  · intro hsame
    let tx' : OnChainTx Certificate := { tx with body := { tx.body with mint := otherMint tx } }
    have h : DiffersUnspent tx tx' := ⟨rfl, rfl⟩
    have hmint := (withMint_withTx_iff h).mp (congrArg MappedBlock.mint (hsame tx' h))
    exact entries_otherMint tx hmint

def failedMint (quantity : ℤ) : OnChainTx Unit where
  id := [1]
  inputSource := .collaterals
  body := { mint := some (JsMap.ofList [(List.replicate 28 7, quantity)]) }

def noReader : AssetNameReader where
  decode _ := none
  toUTF8Handle _ := .ok none
  virtualSubhandleOwnerAddress _ := .ok none

def failedMintBlock (tx : OnChainTx Unit) : Block Unit where
  header := { blockNo := 1, slot := 1, hash := "" }
  body := [tx]

theorem not_mappedBlock_failedMint :
    DiffersUnspent (failedMint 1) (failedMint 2) ∧
    mappedBlock id noReader [] (failedMintBlock (failedMint 1)) ≠
      mappedBlock id noReader [] (failedMintBlock (failedMint 2)) := by
  refine ⟨⟨rfl, rfl⟩, ?_⟩
  intro heq
  have hmint : withMint (failedMintBlock (failedMint 1)) =
      withMint (failedMintBlock (failedMint 2)) := congrArg MappedBlock.mint heq
  exact absurd hmint (by decide)

theorem failed_transaction_leaks_failedMint :
    ¬∀ tx', DiffersUnspent (failedMint 1) tx' →
      mappedBlock id noReader [] ((failedMintBlock (failedMint 1)).withTx [] tx' []) =
        mappedBlock id noReader [] ((failedMintBlock (failedMint 1)).withTx [] (failedMint 1) []) :=
  (failed_transaction_leaks id noReader [] (failedMintBlock (failedMint 1)) [] [] (failedMint 1)
    rfl).2

end Leak

end CardanoSdk.Projection
