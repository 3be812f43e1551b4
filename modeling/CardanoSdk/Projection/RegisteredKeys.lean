import CardanoSdk.Lib.ForkRuns
import CardanoSdk.Projection.Types
import CardanoSdk.Lib.Histories

/-!
`withStakeKeys` and the in-memory `storeStakeKeys`. The ledger registers credentials, the
set holds hashes; they agree on every chain on which a hash is not registered both as a
key's and as a script's.
-/

namespace CardanoSdk.Projection

open Lib TxConstruction

/-- `RegAndDeregCertificateTypes` -/
def regAndDeregCredential? : Certificate → Option Credential
  | .stakeRegistration stakeCredential
  | .registration stakeCredential _
  | .voteRegistrationDelegation stakeCredential _
  | .stakeRegistrationDelegation stakeCredential _ _
  | .stakeVoteRegistrationDelegation stakeCredential _ _
  | .unregistration stakeCredential _
  | .stakeDeregistration stakeCredential => some stakeCredential
  | _ => none

/-- `StakeRegistrationCertificateTypes` -/
def isStakeRegistration : Certificate → Bool
  | .stakeRegistration _
  | .registration _ _
  | .voteRegistrationDelegation _ _
  | .stakeRegistrationDelegation _ _ _
  | .stakeVoteRegistrationDelegation _ _ _ => true
  | _ => false

/-- The two sets of the loop over the certificates. -/
structure StakeKeySets where
  register : JsSet Hash
  deregister : JsSet Hash

def StakeKeySets.add (sets : StakeKeySets) (certificate : Certificate) : StakeKeySets :=
  match regAndDeregCredential? certificate with
  | none => sets
  | some stakeCredential =>
    let stakeCredentialHash := stakeCredential.hash
    if isStakeRegistration certificate then
      if stakeCredentialHash ∈ sets.deregister.toList then
        { sets with deregister := sets.deregister.delete stakeCredentialHash }
      else { sets with register := sets.register.add stakeCredentialHash }
    else if stakeCredentialHash ∈ sets.register.toList then
      { sets with register := sets.register.delete stakeCredentialHash }
    else { sets with deregister := sets.deregister.add stakeCredentialHash }

structure WithStakeKeys where
  insert : List Hash
  del : List Hash

def withStakeKeys (eventType : ChainSyncEventType)
    (certificates : List (OnChainCertificate Certificate)) : WithStakeKeys :=
  let sets : StakeKeySets := certificates.foldl
    (fun (sets : StakeKeySets) onChain => sets.add onChain.certificate)
    { register := JsSet.ofList [], deregister := JsSet.ofList [] }
  match eventType with
  | .rollForward => { insert := sets.register.toList, del := sets.deregister.toList }
  | .rollBackward => { insert := sets.deregister.toList, del := sets.register.toList }

def storeStakeKeys (stakeKeys : WithStakeKeys) (store : JsSet Hash) : JsSet Hash :=
  stakeKeys.del.foldl JsSet.delete (stakeKeys.insert.foldl JsSet.add store)

def stakeKeysProjection : StoreOperator (Block Certificate) (JsSet Hash) where
  forward block := storeStakeKeys (withStakeKeys .rollForward (blockCertificates block))
  backward block := storeStakeKeys (withStakeKeys .rollBackward (blockCertificates block))

/-- What a certificate does to the registration of a stake credential. -/
def registrationChange? : Certificate → Option (RegistrationChange Credential)
  | .stakeRegistration stakeCredential
  | .registration stakeCredential _
  | .voteRegistrationDelegation stakeCredential _
  | .stakeRegistrationDelegation stakeCredential _ _
  | .stakeVoteRegistrationDelegation stakeCredential _ _ => some (.register stakeCredential)
  | .stakeDeregistration stakeCredential
  | .unregistration stakeCredential _ => some (.deregister stakeCredential)
  | _ => none

/-- The changes of a block: those of its transactions that passed validation. -/
def blockChanges (block : Block Certificate) : List (RegistrationChange Credential) :=
  (block.body.filter fun tx => tx.inputSource = .inputs).flatMap fun tx =>
    (tx.body.certificates.getD []).filterMap registrationChange?

def chainChanges (chain : List (Block Certificate)) : List (RegistrationChange Credential) :=
  chain.reverse.flatMap blockChanges

def registeredCredentials (chain : List (Block Certificate)) : Set Credential :=
  registeredAfter ∅ (chainChanges chain)

/-- Credentials are registered only when unregistered, and deregistered only when
registered. -/
def LedgerValid (chain : List (Block Certificate)) : Prop :=
  ValidChanges ∅ (chainChanges chain)

/-- At no point is one hash registered as a key's and as a script's. -/
def OneTypePerHash (chain : List (Block Certificate)) : Prop :=
  KeptApart Credential.hash ∅ (chainChanges chain)

def registeredHashes (chain : List (Block Certificate)) : Set Hash :=
  Set.image Credential.hash (registeredCredentials chain)

def HasRegistered (chain : List (Block Certificate)) (store : JsSet Hash) : Prop :=
  ∀ hash, hash ∈ store.toList ↔ hash ∈ registeredHashes chain

theorem chainChanges_cons (block : Block Certificate) (chain : List (Block Certificate)) :
    chainChanges (block :: chain) = chainChanges chain ++ blockChanges block := by
  rw [chainChanges, List.reverse_cons, List.flatMap_append, List.flatMap_singleton]
  rfl

theorem ledgerValid_of_cons {block : Block Certificate} {chain : List (Block Certificate)}
    (h : LedgerValid (block :: chain)) : LedgerValid chain := by
  rw [LedgerValid, chainChanges_cons, validChanges_append] at h
  exact h.1

theorem oneTypePerHash_of_cons {block : Block Certificate} {chain : List (Block Certificate)}
    (h : OneTypePerHash (block :: chain)) : OneTypePerHash chain := by
  rw [OneTypePerHash, chainChanges_cons] at h
  exact h.of_append.1

theorem registeredHashes_cons {block : Block Certificate} {chain : List (Block Certificate)}
    (hvalid : LedgerValid (block :: chain)) (happart : OneTypePerHash (block :: chain)) :
    ValidChanges (registeredHashes chain)
        ((blockChanges block).map (RegistrationChange.map Credential.hash)) ∧
      registeredAfter (registeredHashes chain)
          ((blockChanges block).map (RegistrationChange.map Credential.hash)) =
        registeredHashes (block :: chain) := by
  rw [LedgerValid, chainChanges_cons, validChanges_append] at hvalid
  rw [OneTypePerHash, chainChanges_cons] at happart
  obtain ⟨hchanges, hafter⟩ := validChanges_map hvalid.2 happart.of_append.2
  refine ⟨hchanges, hafter.trans ?_⟩
  rw [registeredHashes, registeredCredentials, chainChanges_cons]
  simp only [registeredAfter, List.foldl_append]

theorem filterMap_blockCertificates (block : Block Certificate) :
    ((blockCertificates block).map OnChainCertificate.certificate).filterMap registrationChange? =
      blockChanges block := by
  have hfilter : (block.body.filter fun tx => !isPhase2ValidationErrTx tx) =
      block.body.filter fun tx => tx.inputSource = .inputs := by
    apply List.filter_congr
    intro tx _
    cases hsource : tx.inputSource <;> simp [isPhase2ValidationErrTx, hsource]
  rw [certificates_blockCertificates, hfilter, List.filterMap_flatMap]
  rfl

/-- What the loop has collected since the block started: the keys registered in
between, and those deregistered. -/
structure Collected (start now : Set Hash) (sets : StakeKeySets) : Prop where
  register : ∀ hash, hash ∈ sets.register.toList ↔ hash ∈ now ∧ hash ∉ start
  deregister : ∀ hash, hash ∈ sets.deregister.toList ↔ hash ∈ start ∧ hash ∉ now

def StakeKeySets.change (sets : StakeKeySets) : RegistrationChange Hash → StakeKeySets
  | .register hash =>
    if hash ∈ sets.deregister.toList then
      { sets with deregister := sets.deregister.delete hash }
    else { sets with register := sets.register.add hash }
  | .deregister hash =>
    if hash ∈ sets.register.toList then
      { sets with register := sets.register.delete hash }
    else { sets with deregister := sets.deregister.add hash }

theorem StakeKeySets.add_eq (sets : StakeKeySets) (certificate : Certificate) :
    sets.add certificate = (registrationChange? certificate).elim sets
      (fun change => sets.change (change.map Credential.hash)) := by
  cases certificate <;> rfl

variable {start now : Set Hash} {sets : StakeKeySets}

variable {hash : Hash}

theorem Collected.register_add (h : Collected start now sets) (hnew : hash ∉ now) :
    Collected start (insert hash now)
      (sets.change (.register hash)) := by
  rw [StakeKeySets.change]
  by_cases hstart : hash ∈ start
  · rw [if_pos ((h.deregister hash).mpr ⟨hstart, hnew⟩)]
    constructor
    · intro hash'
      rw [h.register, Set.mem_insert_iff]
      by_cases heq : hash' = hash
      · simp [heq, hnew, hstart]
      · simp [heq]
    · intro hash'
      rw [JsSet.mem_delete, h.deregister, Set.mem_insert_iff]
      tauto
  · rw [if_neg fun hmem => hstart ((h.deregister hash).mp hmem).1]
    constructor
    · intro hash'
      rw [JsSet.mem_add, h.register, Set.mem_insert_iff]
      by_cases heq : hash' = hash
      · simp [heq, hstart]
      · simp [heq]
    · intro hash'
      rw [h.deregister, Set.mem_insert_iff]
      by_cases heq : hash' = hash
      · simp [heq, hstart]
      · simp [heq]

theorem Collected.deregister_add (h : Collected start now sets) (hold : hash ∈ now) :
    Collected start (now \ {hash})
      (sets.change (.deregister hash)) := by
  rw [StakeKeySets.change]
  by_cases hstart : hash ∈ start
  · rw [if_neg fun hmem => ((h.register hash).mp hmem).2 hstart]
    constructor
    · intro hash'
      rw [h.register, Set.mem_sdiff, Set.mem_singleton_iff]
      by_cases heq : hash' = hash
      · simp [heq, hstart]
      · simp [heq]
    · intro hash'
      rw [JsSet.mem_add, h.deregister, Set.mem_sdiff, Set.mem_singleton_iff]
      by_cases heq : hash' = hash
      · simp [heq, hstart]
      · simp [heq]
  · rw [if_pos ((h.register hash).mpr ⟨hold, hstart⟩)]
    constructor
    · intro hash'
      rw [JsSet.mem_delete, h.register, Set.mem_sdiff, Set.mem_singleton_iff]
      tauto
    · intro hash'
      rw [h.deregister, Set.mem_sdiff, Set.mem_singleton_iff]
      by_cases heq : hash' = hash
      · simp [heq, hstart]
      · simp [heq]

theorem collected_foldl {certificates : List Certificate} {changes : List (RegistrationChange Hash)}
    (hchanges : (certificates.filterMap registrationChange?).map
      (RegistrationChange.map Credential.hash) = changes)
    (hvalid : ValidChanges now changes) (h : Collected start now sets) :
    Collected start (registeredAfter now changes)
      (certificates.foldl StakeKeySets.add sets) := by
  subst hchanges
  induction certificates generalizing now sets with
  | nil => exact h
  | cons certificate certificates ih =>
    rw [List.foldl_cons, StakeKeySets.add_eq]
    cases hchange : registrationChange? certificate with
    | none =>
      rw [List.filterMap_cons_none hchange] at hvalid ⊢
      exact ih h hvalid
    | some change =>
      rw [List.filterMap_cons_some hchange] at hvalid ⊢
      cases change with
      | register credential => exact ih (h.register_add hvalid.1) hvalid.2
      | deregister credential => exact ih (h.deregister_add hvalid.1) hvalid.2

theorem collected_empty (now : Set Hash) :
    Collected now now { register := JsSet.ofList [], deregister := JsSet.ofList [] } := by
  constructor
  · intro hash
    exact ⟨fun hmem => absurd hmem List.not_mem_nil, fun hmem => absurd hmem.1 hmem.2⟩
  · intro hash
    exact ⟨fun hmem => absurd hmem List.not_mem_nil, fun hmem => absurd hmem.1 hmem.2⟩

theorem mem_storeStakeKeys {before after : Set Hash} {stakeKeys : WithStakeKeys}
    (hinsert : ∀ hash, hash ∈ stakeKeys.insert ↔ hash ∈ after ∧ hash ∉ before)
    (hdel : ∀ hash, hash ∈ stakeKeys.del ↔ hash ∈ before ∧ hash ∉ after) {store : JsSet Hash}
    (hstore : ∀ hash, hash ∈ store.toList ↔ hash ∈ before) (hash : Hash) :
    hash ∈ (storeStakeKeys stakeKeys store).toList ↔ hash ∈ after := by
  rw [storeStakeKeys, JsSet.mem_foldl_delete, JsSet.mem_foldl_add, hinsert, hdel, hstore]
  tauto

theorem stakeKeysProjection_tracks : stakeKeysProjection.Tracks
    (fun chain => LedgerValid chain ∧ OneTypePerHash chain) HasRegistered := by
  have hcollected {block : Block Certificate} {chain : List (Block Certificate)}
      (hvalid : LedgerValid (block :: chain) ∧ OneTypePerHash (block :: chain)) :
      Collected (registeredHashes chain) (registeredHashes (block :: chain))
        ((blockCertificates block).foldl
          (fun (sets : StakeKeySets) onChain => sets.add onChain.certificate)
          { register := JsSet.ofList [], deregister := JsSet.ofList [] }) := by
    obtain ⟨hchanges, hafter⟩ := registeredHashes_cons hvalid.1 hvalid.2
    have h := collected_foldl (by rw [filterMap_blockCertificates]) hchanges
      (collected_empty (registeredHashes chain))
    rw [hafter, List.foldl_map] at h
    exact h
  constructor
  · intro block chain store hvalid hstore
    exact mem_storeStakeKeys (hcollected hvalid).register (hcollected hvalid).deregister hstore
  · intro block chain store hvalid hstore
    exact mem_storeStakeKeys (hcollected hvalid).deregister (hcollected hvalid).register hstore

/-- From an empty store, every run over ledger-valid chains on which no hash is
registered under both types ends with the hashes of the credentials registered
after the tip. -/
theorem stakeKeys_registered {events : List (ChainEvent (Block Certificate))}
    {chain : List (Block Certificate)}
    (hfollows : RunsAlong (fun chain => LedgerValid chain ∧ OneTypePerHash chain) [] events chain)
    (hash : Hash) :
    hash ∈ (stakeKeysProjection.run (JsSet.ofList []) events).toList ↔
      ∃ credential ∈ registeredCredentials chain, credential.hash = hash := by
  have hempty : HasRegistered [] (JsSet.ofList []) := by
    intro hash
    exact iff_of_false List.not_mem_nil (fun ⟨_, hmem, _⟩ => Set.notMem_empty _ hmem)
  have hnone : LedgerValid [] ∧ OneTypePerHash [] := ⟨trivial, Set.injOn_empty _⟩
  exact stakeKeysProjection_tracks.run
    (fun _ _ hvalid => ⟨ledgerValid_of_cons hvalid.1, oneTypePerHash_of_cons hvalid.2⟩)
    hfollows hnone hempty hash

def registrationBlock (blockNo : ℕ) (certificates : List Certificate) : Block Certificate :=
  { header := { blockNo, slot := blockNo, hash := "" }
    body := [{ id := [], inputSource := .inputs, body := { certificates := some certificates } }] }

def keyCredential : Credential := ⟨.keyHash, [1]⟩

def scriptCredential : Credential := ⟨.scriptHash, [1]⟩

/-- A block that registers a credential twice over, one that deregisters it, and
the second of them rolled back. -/
def reRegistration : Block Certificate :=
  registrationBlock 1 [.stakeRegistration keyCredential, .stakeDeregistration keyCredential,
    .registration keyCredential 2]

def deregistration : Block Certificate := registrationBlock 2 [.unregistration keyCredential 2]

theorem stakeKeys_registered_afterRollback :
    [1] ∈ (stakeKeysProjection.run (JsSet.ofList [])
      [.forward reRegistration, .forward deregistration, .backward deregistration]).toList := by
  have hfirst : chainChanges [reRegistration] =
      [.register keyCredential, .deregister keyCredential, .register keyCredential] := rfl
  have hsecond : chainChanges [deregistration, reRegistration] =
      [.register keyCredential, .deregister keyCredential, .register keyCredential,
        .deregister keyCredential] := rfl
  refine (stakeKeys_registered (.forward ?_ (.forward ?_ (.backward .nil))) [1]).mpr
    ⟨keyCredential, ?_, rfl⟩
  · rw [LedgerValid, OneTypePerHash, hfirst]
    simp [ValidChanges, KeptApart, RegistrationChange.Permitted, RegistrationChange.apply]
  · rw [LedgerValid, OneTypePerHash, hsecond]
    simp [ValidChanges, KeptApart, RegistrationChange.Permitted, RegistrationChange.apply]
  · rw [registeredCredentials, hfirst]
    simp [registeredAfter, RegistrationChange.apply]

def twinRegistration : Block Certificate :=
  registrationBlock 1 [.stakeRegistration keyCredential, .stakeRegistration scriptCredential]

def keyDeregistration : Block Certificate :=
  registrationBlock 2 [.stakeDeregistration keyCredential]

/-- The set does not hold the hash of the script, which is still registered. -/
theorem stakeKeys_lose_twin :
    RunsAlong LedgerValid [] [.forward twinRegistration, .forward keyDeregistration]
      [keyDeregistration, twinRegistration] ∧
    scriptCredential ∈ registeredCredentials [keyDeregistration, twinRegistration] ∧
    scriptCredential.hash ∉ (stakeKeysProjection.run (JsSet.ofList [])
      [.forward twinRegistration, .forward keyDeregistration]).toList := by
  have hfirst : chainChanges [twinRegistration] =
      [.register keyCredential, .register scriptCredential] := rfl
  have hsecond : chainChanges [keyDeregistration, twinRegistration] =
      [.register keyCredential, .register scriptCredential, .deregister keyCredential] := rfl
  have hne : scriptCredential ≠ keyCredential := by decide
  refine ⟨.forward ?_ (.forward ?_ .nil), ?_, by decide⟩
  · rw [LedgerValid, hfirst]
    simp [ValidChanges, RegistrationChange.Permitted, RegistrationChange.apply, hne]
  · rw [LedgerValid, hsecond]
    simp [ValidChanges, RegistrationChange.Permitted, RegistrationChange.apply, hne]
  · rw [registeredCredentials, hsecond]
    simp [registeredAfter, RegistrationChange.apply, hne]

end CardanoSdk.Projection
