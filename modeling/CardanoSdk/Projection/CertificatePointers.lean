import CardanoSdk.Projection.Types

/-!
The pointers that `withCertificates` gives the certificates of a block, and the ids that
`certificatePointerToId` makes of them. An index counts the transactions that passed
phase-2 validation, but a pointer is looked up among all of them.
-/

namespace CardanoSdk.Projection

variable {Certificate : Type}

def certificatePointerToId (pointer : Pointer) : ℕ :=
  pointer.slot * 10000000000 + pointer.txIndex * 10000 + pointer.certIndex

def MaxCertificatePointerIdTxIndex : ℕ := 99999

def MaxCertificatePointerIdCertificateIndex : ℕ := 9999

def certificatesOf (tx : OnChainTx Certificate) : List Certificate := tx.body.certificates.getD []

variable {α : Type} {block : Block Certificate}

theorem getElem?_filter_iff {p : α → Bool} {l : List α} {a : α} {i : ℕ} :
    (l.filter p)[i]? = some a ↔
      ∃ before after, l = before ++ a :: after ∧ p a = true ∧ before.countP p = i := by
  induction l generalizing i with
  | nil => simp
  | cons first rest ih =>
    by_cases hfirst : p first = true
    · rw [List.filter_cons_of_pos hfirst]
      cases i with
      | zero =>
        rw [List.getElem?_cons_zero, Option.some_inj]
        constructor
        · rintro rfl
          exact ⟨[], rest, rfl, hfirst, rfl⟩
        · rintro ⟨before, after, hsplit, -, hcount⟩
          cases before with
          | nil => exact (List.cons.inj hsplit).1
          | cons head before =>
            obtain ⟨rfl, -⟩ := List.cons.inj hsplit
            rw [List.countP_cons_of_pos hfirst] at hcount
            omega
      | succ i =>
        rw [List.getElem?_cons_succ, ih]
        constructor
        · rintro ⟨before, after, rfl, ha, rfl⟩
          exact ⟨first :: before, after, rfl, ha, List.countP_cons_of_pos hfirst⟩
        · rintro ⟨before, after, hsplit, ha, hcount⟩
          cases before with
          | nil =>
            rw [List.countP_nil] at hcount
            omega
          | cons head before =>
            obtain ⟨rfl, rfl⟩ := List.cons.inj hsplit
            rw [List.countP_cons_of_pos hfirst] at hcount
            exact ⟨before, after, rfl, ha, by omega⟩
    · rw [List.filter_cons_of_neg hfirst, ih]
      constructor
      · rintro ⟨before, after, rfl, ha, rfl⟩
        exact ⟨first :: before, after, rfl, ha, List.countP_cons_of_neg hfirst⟩
      · rintro ⟨before, after, hsplit, ha, hcount⟩
        cases before with
        | nil =>
          obtain ⟨rfl, -⟩ := List.cons.inj hsplit
          exact absurd ha hfirst
        | cons head before =>
          obtain ⟨rfl, rfl⟩ := List.cons.inj hsplit
          rw [List.countP_cons_of_neg hfirst] at hcount
          exact ⟨before, after, rfl, ha, hcount⟩

def isValidTx (tx : OnChainTx Certificate) : Bool := !isPhase2ValidationErrTx tx

variable {element : OnChainCertificate Certificate} {pointer pointer' : Pointer}

theorem mem_blockCertificates_iff :
    element ∈ blockCertificates block ↔
      element.pointer.slot = block.header.slot ∧ ∃ before tx after,
        block.body = before ++ tx :: after ∧ isValidTx tx = true ∧
        before.countP isValidTx = element.pointer.txIndex ∧
        (certificatesOf tx)[element.pointer.certIndex]? = some element.certificate := by
  obtain ⟨⟨slot, txIndex, certIndex⟩, certificate⟩ := element
  rw [blockCertificates, List.mem_flatMap]
  constructor
  · rintro ⟨⟨tx, index⟩, hmem, helement⟩
    obtain ⟨⟨found, place⟩, hfound, heq⟩ := List.mem_map.mp helement
    cases heq
    obtain ⟨before, after, hsplit, hvalid, hcount⟩ :=
      getElem?_filter_iff.mp (List.mem_zipIdx_iff_getElem?.mp hmem)
    exact ⟨rfl, before, tx, after, hsplit, hvalid, hcount, List.mem_zipIdx_iff_getElem?.mp hfound⟩
  · rintro ⟨hslot, before, tx, after, hsplit, hvalid, hcount, hget⟩
    refine ⟨(tx, txIndex), ?_, List.mem_map.mpr ⟨(certificate, certIndex), ?_, ?_⟩⟩
    · exact List.mem_zipIdx_iff_getElem?.mpr
        (getElem?_filter_iff.mpr ⟨before, after, hsplit, hvalid, hcount⟩)
    · exact List.mem_zipIdx_iff_getElem?.mpr hget
    · cases hslot
      rfl

/-- `block.body[txIndex].body.certificates` -/
def certificatesAt (block : Block Certificate) (txIndex : ℕ) : List Certificate :=
  (block.body[txIndex]?.map certificatesOf).getD []

/-- Every pointer leads to its certificate. -/
def PointersIdentify (block : Block Certificate) : Prop :=
  ∀ element ∈ blockCertificates block,
    (certificatesAt block element.pointer.txIndex)[element.pointer.certIndex]? =
      some element.certificate

/-- No failed transaction stands before a valid one with certificates, unless the
transaction at its index among the valid ones happens to begin with the same ones. -/
def IndexedAsInBlock (block : Block Certificate) : Prop :=
  ∀ before tx after, block.body = before ++ tx :: after → isValidTx tx = true →
    certificatesOf tx ≠ [] → (∀ failed ∈ before, isValidTx failed = true) ∨
      certificatesOf tx <+: certificatesAt block (before.countP isValidTx)

theorem prefix_of_getElem? {l l' : List α}
    (h : ∀ (i : ℕ) (a : α), l[i]? = some a → l'[i]? = some a) : l <+: l' := by
  rw [List.prefix_iff_getElem?]
  intro i hi
  exact h i _ (List.getElem?_eq_getElem hi)

theorem pointersIdentify_iff : PointersIdentify block ↔ IndexedAsInBlock block := by
  constructor
  · intro hidentify before tx after hsplit hvalid _
    refine Or.inr (prefix_of_getElem? fun certIndex certificate hget => ?_)
    exact hidentify ⟨⟨block.header.slot, before.countP isValidTx, certIndex⟩, certificate⟩
      (mem_blockCertificates_iff.mpr ⟨rfl, before, tx, after, hsplit, hvalid, rfl, hget⟩)
  · intro hindexed element hmem
    obtain ⟨-, before, tx, after, hsplit, hvalid, hcount, hget⟩ := mem_blockCertificates_iff.mp hmem
    have hsome : certificatesOf tx ≠ [] := by
      intro hnone
      rw [hnone] at hget
      cases hget
    rw [← hcount]
    rcases hindexed before tx after hsplit hvalid hsome with hall | hprefix
    · rw [List.countP_eq_length.mpr hall, certificatesAt, hsplit, List.getElem?_append_right le_rfl,
        Nat.sub_self]
      exact hget
    · obtain ⟨rest, hrest⟩ := hprefix
      obtain ⟨hplace, -⟩ := List.getElem?_eq_some_iff.mp hget
      rw [← hrest, List.getElem?_append_left hplace]
      exact hget

/-- The order of pointers on a chain. -/
def Pointer.Before (pointer pointer' : Pointer) : Prop :=
  pointer.slot < pointer'.slot ∨ pointer.slot = pointer'.slot ∧
    (pointer.txIndex < pointer'.txIndex ∨ pointer.txIndex = pointer'.txIndex ∧
      pointer.certIndex < pointer'.certIndex)

structure Pointer.InRange (pointer : Pointer) : Prop where
  txIndex : pointer.txIndex ≤ MaxCertificatePointerIdTxIndex
  certIndex : pointer.certIndex ≤ MaxCertificatePointerIdCertificateIndex

theorem certificatePointerToId_lt (hrange : pointer.InRange) (hbefore : pointer.Before pointer') :
    certificatePointerToId pointer < certificatePointerToId pointer' := by
  have htx := hrange.txIndex
  have hcert := hrange.certIndex
  unfold MaxCertificatePointerIdTxIndex at htx
  unfold MaxCertificatePointerIdCertificateIndex at hcert
  unfold certificatePointerToId
  rcases hbefore with hslot | ⟨hslot, htxIndex | ⟨htxIndex, hcertIndex⟩⟩ <;> omega

theorem certificatePointerToId_inj (hrange : pointer.InRange) (hrange' : pointer'.InRange)
    (h : certificatePointerToId pointer = certificatePointerToId pointer') :
    pointer = pointer' := by
  obtain ⟨htx, hcert⟩ := hrange
  obtain ⟨htx', hcert'⟩ := hrange'
  obtain ⟨slot, txIndex, certIndex⟩ := pointer
  obtain ⟨slot', txIndex', certIndex'⟩ := pointer'
  simp only [certificatePointerToId, MaxCertificatePointerIdTxIndex,
    MaxCertificatePointerIdCertificateIndex] at h htx hcert htx' hcert'
  rw [Pointer.mk.injEq]
  omega

structure FitsPointers (block : Block Certificate) : Prop where
  transactions : block.body.length ≤ 100000
  certificates : ∀ tx ∈ block.body, (certificatesOf tx).length ≤ 10000

theorem FitsPointers.inRange (h : FitsPointers block) (hmem : element ∈ blockCertificates block) :
    element.pointer.InRange := by
  obtain ⟨-, before, tx, after, hsplit, -, hcount, hget⟩ := mem_blockCertificates_iff.mp hmem
  have htransactions := h.transactions
  have hcertificates := h.certificates tx (by rw [hsplit]; exact List.mem_append_right _ List.mem_cons_self)
  have hle := @List.countP_le_length _ isValidTx before
  obtain ⟨hplace, -⟩ := List.getElem?_eq_some_iff.mp hget
  rw [hsplit, List.length_append, List.length_cons] at htransactions
  refine ⟨?_, ?_⟩
  · rw [MaxCertificatePointerIdTxIndex]
    omega
  · rw [MaxCertificatePointerIdCertificateIndex]
    omega

theorem pairwise_zipIdx (l : List α) :
    l.zipIdx.Pairwise fun entry entry' => entry.2 < entry'.2 := by
  have h : (List.range' 0 l.length).Pairwise (· < ·) := List.pairwise_lt_range'
  rw [← List.zipIdx_map_snd, List.pairwise_map] at h
  exact h

theorem pairwise_blockCertificates (block : Block Certificate) :
    (blockCertificates block).Pairwise fun element element' =>
      element.pointer.Before element'.pointer := by
  rw [blockCertificates, List.pairwise_flatMap]
  constructor
  · rintro ⟨tx, txIndex⟩ -
    rw [List.pairwise_map]
    exact (pairwise_zipIdx _).imp fun hlt => Or.inr ⟨rfl, Or.inr ⟨rfl, hlt⟩⟩
  · refine (pairwise_zipIdx _).imp ?_
    rintro ⟨tx, txIndex⟩ ⟨tx', txIndex'⟩ hlt element helement element' helement'
    obtain ⟨_, -, rfl⟩ := List.mem_map.mp helement
    obtain ⟨_, -, rfl⟩ := List.mem_map.mp helement'
    exact Or.inr ⟨rfl, Or.inl hlt⟩

/-- Blocks in the order of their slots. -/
structure IndexedChain (chain : List (Block Certificate)) : Prop where
  slots : chain.Pairwise fun block block' => block.header.slot < block'.header.slot
  fits : ∀ block ∈ chain, FitsPointers block

theorem pairwise_chainCertificates {chain : List (Block Certificate)} (h : IndexedChain chain) :
    (chain.flatMap blockCertificates).Pairwise fun element element' =>
      element.pointer.Before element'.pointer := by
  rw [List.pairwise_flatMap]
  refine ⟨fun block _ => pairwise_blockCertificates block, h.slots.imp ?_⟩
  intro block block' hslot element helement element' helement'
  obtain ⟨hslots, -⟩ := mem_blockCertificates_iff.mp helement
  obtain ⟨hslots', -⟩ := mem_blockCertificates_iff.mp helement'
  rw [Pointer.Before, hslots, hslots']
  exact Or.inl hslot

/-- Pointers lead to their certificates exactly if no failed transaction shifts
them. Every certificate of a valid transaction is listed once, and along a chain
ids identify pointers and grow. -/
theorem certificatePointers_identify_iff :
    (∀ block : Block Certificate, (PointersIdentify block ↔ IndexedAsInBlock block) ∧
      (blockCertificates block).map OnChainCertificate.certificate =
        (block.body.filter isValidTx).flatMap certificatesOf) ∧
    ∀ chain : List (Block Certificate), IndexedChain chain →
      (∀ element ∈ chain.flatMap blockCertificates,
        ∀ element' ∈ chain.flatMap blockCertificates,
          certificatePointerToId element.pointer = certificatePointerToId element'.pointer →
            element.pointer = element'.pointer) ∧
      (chain.flatMap blockCertificates).Pairwise fun element element' =>
        certificatePointerToId element.pointer < certificatePointerToId element'.pointer := by
  refine ⟨fun block => ⟨pointersIdentify_iff, certificates_blockCertificates block⟩,
    fun chain hchain => ?_⟩
  have hrange (element : OnChainCertificate Certificate)
      (hmem : element ∈ chain.flatMap blockCertificates) : element.pointer.InRange := by
    obtain ⟨block, hblock, helement⟩ := List.mem_flatMap.mp hmem
    exact (hchain.fits block hblock).inRange helement
  refine ⟨fun element hmem element' hmem' => ?_, ?_⟩
  · exact certificatePointerToId_inj (hrange element hmem) (hrange element' hmem')
  · exact (pairwise_chainCertificates hchain).imp_of_mem fun hmem _ hbefore =>
      certificatePointerToId_lt (hrange _ hmem) hbefore

/-- A block with a transaction that failed, and behind it one with a certificate. -/
def shiftedBlock : Block TxConstruction.Certificate where
  header := ⟨1, 20, "block"⟩
  body := [
    { id := List.replicate 32 1, inputSource := .collaterals, body := {} },
    { id := List.replicate 32 2
      inputSource := .inputs
      body := { certificates := some [.stakeRegistration ⟨.keyHash, List.replicate 28 3⟩] } }]

def laterBlock : Block TxConstruction.Certificate where
  header := ⟨2, 41, "later"⟩
  body := [
    { id := List.replicate 32 4
      inputSource := .inputs
      body := { certificates := some [
        .stakeRegistration ⟨.keyHash, List.replicate 28 5⟩,
        .stakeDeregistration ⟨.keyHash, List.replicate 28 3⟩] } },
    { id := List.replicate 32 6
      inputSource := .inputs
      body := { certificates := some [.stakeDeregistration ⟨.keyHash, List.replicate 28 5⟩] } }]

theorem indexedChain_shifted : IndexedChain [shiftedBlock, laterBlock] := by
  refine ⟨List.pairwise_pair.mpr (by decide), fun block hmem => ?_⟩
  rcases List.mem_pair.mp hmem with rfl | rfl <;> refine ⟨by decide, fun tx htx => ?_⟩ <;>
    rcases List.mem_pair.mp htx with rfl | rfl <;> decide

/-- The four ids along the chain of the two blocks. -/
theorem certificatePointers_identify_shifted :
    ([shiftedBlock, laterBlock].flatMap blockCertificates).map
      (fun element => certificatePointerToId element.pointer) =
        [200000000000, 410000000000, 410000000001, 410000010000] ∧
    ([shiftedBlock, laterBlock].flatMap blockCertificates).Pairwise fun element element' =>
      certificatePointerToId element.pointer < certificatePointerToId element'.pointer :=
  ⟨by decide, (certificatePointers_identify_iff.2 _ indexedChain_shifted).2⟩

/-- The pointer of its certificate leads to the failed transaction. -/
theorem certificatePointers_shifted : ¬ PointersIdentify shiftedBlock := by
  unfold PointersIdentify
  decide

end CardanoSdk.Projection
