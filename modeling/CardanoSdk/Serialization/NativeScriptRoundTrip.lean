import CardanoSdk.Serialization.Inversion
import CardanoSdk.Serialization.NativeScript

/-!
What `NativeScript.fromCbor` makes of the encodings of a core script, whatever the frames
of its lists.
-/

namespace CardanoSdk.Cardano

/-- `Number.isSafeInteger` -/
def SafeInteger (value : ℤ) : Prop := value.natAbs < 2 ^ 53

theorem SafeInteger.bounds {value : ℤ} (h : SafeInteger value) :
    -(2 ^ 64) ≤ value ∧ value < 2 ^ 64 := by
  unfold SafeInteger at h
  omega

mutual

/-- A script as the types of the core domain have it, with safe integers for
its slots and counts. The length of an array is below `2 ^ 32`. -/
def NativeScript.Valid : NativeScript → Prop
  | .requireSignature _ => True
  | .requireAllOf scripts => scripts.length < 2 ^ 32 ∧ AllScriptsValid scripts
  | .requireAnyOf scripts => scripts.length < 2 ^ 32 ∧ AllScriptsValid scripts
  | .requireNOf required scripts =>
    SafeInteger required ∧ scripts.length < 2 ^ 32 ∧ AllScriptsValid scripts
  | .requireTimeAfter slot => SafeInteger slot
  | .requireTimeBefore slot => SafeInteger slot
  | .requireGuard credential => credential.hash.length = 28

def AllScriptsValid : List NativeScript → Prop
  | [] => True
  | script :: scripts => script.Valid ∧ AllScriptsValid scripts

end

end CardanoSdk.Cardano

namespace CardanoSdk.Serialization

open Lib Cbor Plutus Cardano
open TxConstruction (Credential CredentialType)

inductive Group (kind : NativeScriptKind) (content : List UInt8) : List UInt8 → Prop
  | mk {head number : List UInt8} (hhead : Head 4 (embeddedGroupSize kind) head)
      (hnumber : IntegerHead number kind.toNat) : Group kind content (head ++ (number ++ content))

inductive CredentialItem (credential : Credential) : List UInt8 → Prop
  | mk {head number hash : List UInt8} (hhead : Head 4 credentialArraySize head)
      (hnumber : IntegerHead number (credentialTypeNumber credential.type))
      (hhash : ByteString AnyLength hash credential.hash) :
      CredentialItem credential (head ++ (number ++ hash))

mutual

/-- The encodings of a script. The frames of its lists are free. -/
inductive ScriptItem : Cardano.NativeScript → List UInt8 → Prop
  | requireSignature {keyHash : Ed25519KeyHashHex} {hash bytes : List UInt8}
      (hhash : ByteString AnyLength hash keyHash.1) (hgroup : Group .requireSignature hash bytes) :
      ScriptItem (.requireSignature keyHash) bytes
  | requireAllOf {scripts : List Cardano.NativeScript} {list bytes : List UInt8}
      (hlist : ScriptList scripts list) (hgroup : Group .requireAllOf list bytes) :
      ScriptItem (.requireAllOf scripts) bytes
  | requireAnyOf {scripts : List Cardano.NativeScript} {list bytes : List UInt8}
      (hlist : ScriptList scripts list) (hgroup : Group .requireAnyOf list bytes) :
      ScriptItem (.requireAnyOf scripts) bytes
  | requireNOf {required : ℤ} {scripts : List Cardano.NativeScript} {number list bytes : List UInt8}
      (hrequired : IntegerHead number required) (hlist : ScriptList scripts list)
      (hgroup : Group .requireNOf (number ++ list) bytes) :
      ScriptItem (.requireNOf required scripts) bytes
  | requireTimeAfter {slot : ℤ} {number bytes : List UInt8} (hslot : IntegerHead number slot)
      (hgroup : Group .requireTimeAfter number bytes) : ScriptItem (.requireTimeAfter slot) bytes
  | requireTimeBefore {slot : ℤ} {number bytes : List UInt8} (hslot : IntegerHead number slot)
      (hgroup : Group .requireTimeBefore number bytes) : ScriptItem (.requireTimeBefore slot) bytes
  | requireGuard {credential : Credential} {item bytes : List UInt8}
      (hcredential : CredentialItem credential item) (hgroup : Group .requireGuard item bytes) :
      ScriptItem (.requireGuard credential) bytes

inductive ScriptList : List Cardano.NativeScript → List UInt8 → Prop
  | mk {scripts : List Cardano.NativeScript} {elements : List (List UInt8)} {declared : Option ℕ}
      {bytes : List UInt8} (hitems : ScriptItems scripts elements)
      (hframed : Framed 4 elements.length elements.flatten declared bytes) : ScriptList scripts bytes

inductive ScriptItems : List Cardano.NativeScript → List (List UInt8) → Prop
  | nil : ScriptItems [] []
  | cons {script : Cardano.NativeScript} {scripts : List Cardano.NativeScript} {item : List UInt8}
      {elements : List (List UInt8)} (hitem : ScriptItem script item)
      (hrest : ScriptItems scripts elements) : ScriptItems (script :: scripts) (item :: elements)

end

theorem Group.dataItem {kind : NativeScriptKind} {content bytes : List UInt8} {more : ℕ}
    (h : Group kind content bytes) (hmore : embeddedGroupSize kind = more + 1)
    (hitems : Items more content) : DataItem bytes := by
  cases h with
  | mk hhead hnumber =>
    rw [hmore] at hhead
    exact DataItem.array hhead (Items.cons hnumber.dataItem hitems)

theorem CredentialItem.dataItem {credential : Credential} {bytes : List UInt8}
    (h : CredentialItem credential bytes) : DataItem bytes := by
  cases h with
  | mk hhead hnumber hhash =>
    have hitems := Items.cons hnumber.dataItem (Items.cons hhash.dataItem Items.nil)
    rw [List.append_nil] at hitems
    exact DataItem.array hhead hitems

mutual

theorem ScriptItem.dataItem {script : Cardano.NativeScript} {bytes : List UInt8} :
    ScriptItem script bytes → DataItem bytes
  | .requireSignature hhash hgroup => hgroup.dataItem rfl (items_one hhash.dataItem)
  | .requireAllOf hlist hgroup => hgroup.dataItem rfl (items_one hlist.dataItem)
  | .requireAnyOf hlist hgroup => hgroup.dataItem rfl (items_one hlist.dataItem)
  | .requireNOf hrequired hlist hgroup =>
    hgroup.dataItem rfl (Items.cons hrequired.dataItem (items_one hlist.dataItem))
  | .requireTimeAfter hslot hgroup => hgroup.dataItem rfl (items_one hslot.dataItem)
  | .requireTimeBefore hslot hgroup => hgroup.dataItem rfl (items_one hslot.dataItem)
  | .requireGuard hcredential hgroup => hgroup.dataItem rfl (items_one hcredential.dataItem)

theorem ScriptList.dataItem {scripts : List Cardano.NativeScript} {bytes : List UInt8} :
    ScriptList scripts bytes → DataItem bytes
  | .mk hitems hframed => hframed.array (items_of_wellFormed hitems.dataItems)

theorem ScriptItems.dataItems {scripts : List Cardano.NativeScript}
    {elements : List (List UInt8)} :
    ScriptItems scripts elements → ∀ item ∈ elements, DataItem item
  | .nil => by simp
  | .cons hitem hrest => List.forall_mem_cons.mpr ⟨hitem.dataItem, hrest.dataItems⟩

end

theorem ofInt?_toNat (kind : NativeScriptKind) : NativeScriptKind.ofInt? kind.toNat = some kind := by
  cases kind <;> rfl

theorem toNumber_kind (kind : NativeScriptKind) : toNumber kind.toNat = kind.toNat := by
  apply toNumber_of_natAbs_lt
  cases kind <;> decide

section Groups

variable {kind : NativeScriptKind} {content bytes : List UInt8} {more : ℕ}

theorem Group.exists_framed (h : Group kind content bytes)
    (hmore : embeddedGroupSize kind = more + 1) (hitems : Items more content) :
    ∃ number, IntegerHead number kind.toNat ∧ 1 + more ≤ (number ++ content).length ∧
      Framed 4 (1 + more) (number ++ content) (some (embeddedGroupSize kind)) bytes := by
  cases h with
  | @mk head number hhead hnumber =>
    have hcount := (Items.cons hnumber.dataItem hitems).le_length
    rw [← hmore] at hcount
    rw [Nat.add_comm, ← hmore]
    exact ⟨number, hnumber, hcount, Framed.definite hhead⟩

theorem Group.peeks (h : Group kind content bytes) (hmore : embeddedGroupSize kind = more + 1)
    (hitems : Items more content) (hlength : bytes.length < 2 ^ 53) :
    peekKind bytes = .ok (kind.toNat : ℤ) := by
  obtain ⟨number, hnumber, hcount, hframed⟩ := h.exists_framed hmore hitems
  apply decodeWith_firstItems hframed hcount hlength
  apply (readsItem_integerHead hnumber).last
  intro reader
  rw [toNumber_kind]
  rfl

theorem Group.reads {α : Type} {rest : DecodeM α} {value : α} (h : Group kind content bytes)
    (hmore : embeddedGroupSize kind = more + 1) (hitems : Items more content)
    (hlength : bytes.length < 2 ^ 53) (hrest : Reads rest more content value) :
    readGroup kind bytes rest = .ok value := by
  obtain ⟨number, hnumber, hcount, hframed⟩ := h.exists_framed hmore hitems
  refine decodeWith_framed hframed hcount hlength ?_
  rw [if_neg (by simp)]
  refine (readsItem_integerHead hnumber).bind ?_
  rwa [if_neg (by rw [toNumber_kind]; simp)]

end Groups

theorem CredentialItem.fromCbor {credential : Credential} {bytes : List UInt8}
    (h : CredentialItem credential bytes) (hlength : bytes.length < 2 ^ 53) :
    credentialFromCbor bytes = .ok credential := by
  cases h with
  | @mk head number hash hhead hnumber hhash =>
    have hitems := Items.cons hnumber.dataItem (items_one hhash.dataItem)
    have htype : ReadsItem readCredentialType number credential.type := by
      apply (readsItem_integerHead hnumber).map
      intro reader
      cases credential.type <;> rfl
    have hhashed := (readsItem_byteStringItem hhash).reads
    apply decodeWith_ok hlength
    intro reader hfresh
    obtain ⟨entered, tail, hstart, hinner, hroom, hleave⟩ :=
      entersArray (Framed.definite hhead) hitems.le_length hfresh.bytes hfresh.accepts
    rw [List.append_assoc] at hinner
    rw [show credentialArraySize = 1 + 1 from rfl, List.length_append, ← CborReader.pass_pass] at hleave
    have hrest : (entered.pass 1 number.length).getRemainingBytes = hash ++ tail := by
      rw [CborReader.getRemainingBytes_pass, hinner, List.drop_left]
    refine Succeeds.read hstart ?_
    rw [if_neg (by simp)]
    refine ⟨reader.pass 1 (head ++ (number ++ hash)).length, ?_⟩
    rw [run_bind_ok (htype.reads entered _ 1 hinner hroom),
      run_bind_ok (hhashed _ tail 0 hrest (hroom.pass _)), run_bind_ok (reading_ok hleave)]
    rfl

/-- The bytes a script was decoded from. -/
def NativeScript.originalBytes : NativeScript → Option (List UInt8)
  | .scriptPubkey original _ _ => original
  | .scriptAll original _ _ => original
  | .scriptAny original _ _ => original
  | .scriptNOfK original _ _ _ => original
  | .timelockStart original _ _ => original
  | .timelockExpiry original _ _ => original
  | .requireGuard original _ _ => original

variable {bytes : List UInt8} {elements : List (List UInt8)}

variable {script : NativeScript} {kind : NativeScriptKind} {content : List UInt8}

theorem NativeScript.toCbor_of_originalBytes (h : script.originalBytes = some bytes)
    (hbytes : 0 < bytes.length) : script.toCbor = .ok bytes := by
  obtain ⟨byte, tail, rfl⟩ := List.exists_cons_of_length_pos hbytes
  cases script <;> (cases h; rw [NativeScript.toCbor]; rfl)

/-- The object that is decoded from the bytes, down to its core script. -/
structure DecodesScript (fuel : ℕ) (core : Cardano.NativeScript) (bytes : List UInt8)
    (script : NativeScript) : Prop where
  within : nativeScriptWithin fuel bytes = .ok script
  original : script.originalBytes = some bytes
  core : script.toCore = core

theorem readsItem_scripts {fromCbor : List UInt8 → Except DecodeException NativeScript}
    {cbor list : List UInt8} {scripts : List NativeScript} {declared : Option ℕ}
    (h : List.Forall₂ (DecodesPart fromCbor) elements scripts)
    (hframed : Framed 4 elements.length elements.flatten declared list)
    (hlength : list.length ≤ cbor.length) : ReadsItem (readScripts fromCbor cbor) list scripts := by
  have hcontent := hframed.content_lt
  have hcount := length_le_flatten (DecodesPart.dataItems h)
  exact readsItem_list h hframed (by omega)

theorem Group.within {more fuel : ℕ} {rest : DecodeM NativeScript} (h : Group kind content bytes)
    (hmore : embeddedGroupSize kind = more + 1) (hitems : Items more content)
    (hlength : bytes.length < 2 ^ 53)
    (hkind : readKind (nativeScriptWithin fuel) bytes kind = readGroup kind bytes rest)
    (hrest : Reads rest more content script) :
    nativeScriptWithin (fuel + 1) bytes = .ok script := by
  have hknown := ofInt?_toNat kind
  rw [nativeScriptWithin, h.peeks hmore hitems hlength]
  simp only [Bind.bind, Except.bind, hknown]
  exact hkind.trans (h.reads hmore hitems hlength hrest)

theorem Group.content_lt (h : Group kind content bytes) : content.length < bytes.length := by
  cases h with
  | mk hhead hnumber =>
    have hpos := hhead.length_pos
    simp only [List.length_append]
    omega


theorem ed25519KeyHashHex_ok (keyHash : Ed25519KeyHashHex) :
    ed25519KeyHashHex keyHash.1 = .ok keyHash := by
  rw [ed25519KeyHashHex, dif_pos keyHash.2]

mutual

/-- Every encoding of a script is decoded to it. The induction is on the
encoding; every level of nesting takes a byte of the fuel. -/
theorem ScriptItem.decodes {core : Cardano.NativeScript} {bytes : List UInt8} (hvalid : core.Valid)
    (hlength : bytes.length < 2 ^ 53) {fuel : ℕ} (hfuel : bytes.length ≤ fuel) :
    ScriptItem core bytes → ∃ script, DecodesScript (fuel + 1) core bytes script
  | @ScriptItem.requireSignature keyHash _ _ hhash hgroup => by
    have hitems := items_one hhash.dataItem
    refine ⟨.scriptPubkey (some bytes) (some bytes) keyHash,
      hgroup.within rfl hitems hlength rfl ?_, rfl, rfl⟩
    apply (readsItem_byteStringItem hhash).last
    intro reader
    rw [run_bind_ok (checking_ok (ed25519KeyHashHex_ok keyHash))]
    rfl
  | .requireAllOf hlist hgroup => by
    rw [NativeScript.Valid] at hvalid
    have hitems := items_one hlist.dataItem
    obtain ⟨scripts, hscripts, hcore⟩ := hlist.decodes hvalid.2 hlength hfuel hgroup.content_lt
    refine ⟨.scriptAll (some bytes) (some bytes) scripts,
      hgroup.within rfl hitems hlength rfl (hscripts.last fun _ => rfl), rfl, ?_⟩
    rw [NativeScript.toCore, hcore]
  | .requireAnyOf hlist hgroup => by
    rw [NativeScript.Valid] at hvalid
    have hitems := items_one hlist.dataItem
    obtain ⟨scripts, hscripts, hcore⟩ := hlist.decodes hvalid.2 hlength hfuel hgroup.content_lt
    refine ⟨.scriptAny (some bytes) (some bytes) scripts,
      hgroup.within rfl hitems hlength rfl (hscripts.last fun _ => rfl), rfl, ?_⟩
    rw [NativeScript.toCore, hcore]
  | @ScriptItem.requireNOf required _ _ list _ hrequired hlist hgroup => by
    rw [NativeScript.Valid] at hvalid
    have hitems := Items.cons hrequired.dataItem (items_one hlist.dataItem)
    have hlt : list.length < bytes.length := by
      have hcontent := hgroup.content_lt
      rw [List.length_append] at hcontent
      omega
    obtain ⟨scripts, hscripts, hcore⟩ := hlist.decodes hvalid.2.2 hlength hfuel hlt
    refine ⟨.scriptNOfK (some bytes) (some bytes) scripts required,
      hgroup.within rfl hitems hlength rfl ?_, rfl, ?_⟩
    · change Reads _ (1 + 1) _ _
      apply (readsItem_integerHead hrequired).bind
      apply hscripts.last
      intro reader
      rw [toNumber_of_natAbs_lt hvalid.1]
      rfl
    · rw [NativeScript.toCore, hcore]
  | @ScriptItem.requireTimeAfter slot _ _ hslot hgroup => by
    refine ⟨.timelockStart (some bytes) (some bytes) slot,
      hgroup.within rfl (items_one hslot.dataItem) hlength rfl ?_, rfl, rfl⟩
    apply (readsItem_integerHead hslot).last
    intro reader
    rw [toNumber_of_natAbs_lt hvalid]
    rfl
  | @ScriptItem.requireTimeBefore slot _ _ hslot hgroup => by
    refine ⟨.timelockExpiry (some bytes) (some bytes) slot,
      hgroup.within rfl (items_one hslot.dataItem) hlength rfl ?_, rfl, rfl⟩
    apply (readsItem_integerHead hslot).last
    intro reader
    rw [toNumber_of_natAbs_lt hvalid]
    rfl
  | @ScriptItem.requireGuard credential _ _ hcredential hgroup => by
    have hdecoded := hcredential.fromCbor (hgroup.content_lt.trans hlength)
    refine ⟨.requireGuard (some bytes) (some bytes) credential,
      hgroup.within rfl (items_one hcredential.dataItem) hlength rfl ?_, rfl, rfl⟩
    exact (readsItem_part hcredential.dataItem hdecoded).last fun _ => rfl

theorem ScriptList.decodes {core : List Cardano.NativeScript} {cbor list : List UInt8}
    (hvalid : AllScriptsValid core) (hlength : cbor.length < 2 ^ 53) {fuel : ℕ}
    (hfuel : cbor.length ≤ fuel) (hlist : list.length < cbor.length) :
    ScriptList core list → ∃ scripts,
      ReadsItem (readScripts (nativeScriptWithin fuel) cbor) list scripts ∧
      nativeScriptsToCore scripts = core
  | @ScriptList.mk _ elements _ _ hitems hframed => by
    have hcontent := hframed.content_lt
    obtain ⟨scripts, hparts, hcore⟩ := hitems.decodes hvalid (by omega)
      (show elements.flatten.length < fuel by omega)
    exact ⟨scripts, readsItem_scripts hparts hframed hlist.le, hcore⟩

theorem ScriptItems.decodes {core : List Cardano.NativeScript} {elements : List (List UInt8)}
    (hvalid : AllScriptsValid core) (hlength : elements.flatten.length < 2 ^ 53) {fuel : ℕ}
    (hfuel : elements.flatten.length < fuel) :
    ScriptItems core elements → ∃ scripts,
      List.Forall₂ (DecodesPart (nativeScriptWithin fuel)) elements scripts ∧
      nativeScriptsToCore scripts = core
  | .nil => ⟨[], List.Forall₂.nil, rfl⟩
  | @ScriptItems.cons _ _ item elements hitem hrest => by
    obtain ⟨fuel, rfl⟩ : ∃ n, fuel = n + 1 := ⟨fuel - 1, by omega⟩
    rw [List.flatten_cons, List.length_append] at hlength hfuel
    rw [AllScriptsValid] at hvalid
    have hlt : item.length ≤ fuel := by omega
    obtain ⟨script, hscript⟩ := hitem.decodes hvalid.1 (by omega) hlt
    obtain ⟨scripts, hscripts, hcore⟩ := hrest.decodes hvalid.2 (by omega)
      (show elements.flatten.length < fuel + 1 by omega)
    refine ⟨script :: scripts, List.Forall₂.cons ⟨hitem.dataItem, hscript.within⟩ hscripts, ?_⟩
    rw [nativeScriptsToCore, hscript.core, hcore]

end

section Encoding

variable {kind : NativeScriptKind} {content : List UInt8}

def groupBytes (kind : NativeScriptKind) (content : List UInt8) : List UInt8 :=
  encodeHead .array (embeddedGroupSize kind) ++ (encodeInt kind.toNat ++ content)

theorem embeddedGroupSize_le (kind : NativeScriptKind) : embeddedGroupSize kind ≤ 3 := by
  cases kind <;> decide

theorem kind_lt (kind : NativeScriptKind) : kind.toNat < 7 := by
  cases kind <;> decide

theorem encodeGroup_ok {write : WriteM Unit} (h : Writes write content) :
    encodeGroup kind write = .ok (groupBytes kind content) := by
  have hsize := embeddedGroupSize_le kind
  have hkind := kind_lt kind
  apply encodeAsHex_ok
  apply Encodes.write (writes_startArray (by omega))
  exact Encodes.write (writes_int (by omega) (by omega)) (encodes_writing h)

theorem group_groupBytes : Group kind content (groupBytes kind content) := by
  have hsize := embeddedGroupSize_le kind
  have hkind := kind_lt kind
  exact Group.mk (head_encodeHead .array (by omega)) (integerHead_encodeInt (by omega) (by omega))

structure EncodesScript (core : Cardano.NativeScript) (bytes : List UInt8) : Prop where
  encoded : (NativeScript.fromCore core).toCbor = .ok bytes
  item : ScriptItem core bytes

end Encoding

theorem credentialTypeNumber_lt (type : CredentialType) : credentialTypeNumber type < 2 := by
  cases type <;> decide

theorem credentialToCbor_eq {credential : Credential} (h : credential.hash.length < 2 ^ 64) :
    credentialToCbor credential = .ok (encodeHead .array credentialArraySize ++
      (encodeInt (credentialTypeNumber credential.type) ++ encodeChunk credential.hash)) := by
  have htype := credentialTypeNumber_lt credential.type
  apply encodeAsHex_ok
  apply Encodes.write (writes_startArray (by decide))
  exact Encodes.write (writes_int (by omega) (by omega)) (encodes_writing (writes_byteString h))

theorem credentialToCbor_ok {credential : Credential} (h : credential.hash.length < 2 ^ 64) :
    ∃ item, credentialToCbor credential = .ok item ∧ CredentialItem credential item := by
  have htype := credentialTypeNumber_lt credential.type
  refine ⟨_, credentialToCbor_eq h, ?_⟩
  have hhash : ByteString AnyLength (encodeChunk credential.hash) credential.hash :=
    ByteString.whole (head_encodeHead .byteString h) trivial
  exact CredentialItem.mk (head_encodeHead .array (by decide))
    (integerHead_encodeInt (by omega) (by omega)) hhash

theorem writes_scripts (h : elements.length < 2 ^ 64) :
    Writes (writeScripts elements) (encodeHead .array elements.length ++ elements.flatten) :=
  (writes_startArray h).bind (writes_elements elements)

theorem scriptList_elements {core : List Cardano.NativeScript} (h : ScriptItems core elements)
    (hlength : elements.length < 2 ^ 64) :
    ScriptList core (encodeHead .array elements.length ++ elements.flatten) :=
  ScriptList.mk h (Framed.definite (head_encodeHead .array hlength))

theorem ScriptItems.length_eq {core : List Cardano.NativeScript} {elements : List (List UInt8)} :
    ScriptItems core elements → elements.length = core.length
  | .nil => rfl
  | .cons _ hrest => congrArg (· + 1) hrest.length_eq

mutual

theorem exists_scriptItem : ∀ {core : Cardano.NativeScript}, core.Valid →
    ∃ bytes, EncodesScript core bytes
  | .requireSignature keyHash, _ => by
    have hlength : keyHash.1.length < 2 ^ 64 := by
      rw [keyHash.2]
      decide
    have hhash : ByteString AnyLength (encodeChunk keyHash.1) keyHash.1 :=
      ByteString.whole (head_encodeHead .byteString hlength) trivial
    refine ⟨_, ?_, ScriptItem.requireSignature hhash group_groupBytes⟩
    rw [NativeScript.fromCore, NativeScript.newScriptPubkey, NativeScript.toCbor]
    exact encodeGroup_ok (writes_byteString hlength)
  | .requireAllOf scripts, hvalid => by
    rw [NativeScript.Valid] at hvalid
    obtain ⟨elements, hencoded, hitems⟩ := exists_scriptItems hvalid.2
    have hlength : elements.length < 2 ^ 64 := by
      have hcount := hitems.length_eq
      omega
    refine ⟨_, ?_, ScriptItem.requireAllOf (scriptList_elements hitems hlength) group_groupBytes⟩
    rw [NativeScript.fromCore, NativeScript.newScriptAll, NativeScript.toCbor, hencoded]
    exact encodeGroup_ok (writes_scripts hlength)
  | .requireAnyOf scripts, hvalid => by
    rw [NativeScript.Valid] at hvalid
    obtain ⟨elements, hencoded, hitems⟩ := exists_scriptItems hvalid.2
    have hlength : elements.length < 2 ^ 64 := by
      have hcount := hitems.length_eq
      omega
    refine ⟨_, ?_, ScriptItem.requireAnyOf (scriptList_elements hitems hlength) group_groupBytes⟩
    rw [NativeScript.fromCore, NativeScript.newScriptAny, NativeScript.toCbor, hencoded]
    exact encodeGroup_ok (writes_scripts hlength)
  | .requireNOf required scripts, hvalid => by
    rw [NativeScript.Valid] at hvalid
    obtain ⟨hrequired, hshort, hscripts⟩ := hvalid
    obtain ⟨elements, hencoded, hitems⟩ := exists_scriptItems hscripts
    obtain ⟨hlower, hupper⟩ := hrequired.bounds
    have hlength : elements.length < 2 ^ 64 := by
      have hcount := hitems.length_eq
      omega
    refine ⟨_, ?_, ScriptItem.requireNOf (integerHead_encodeInt hlower hupper)
      (scriptList_elements hitems hlength) group_groupBytes⟩
    rw [NativeScript.fromCore, NativeScript.newScriptNOfK, NativeScript.toCbor, hencoded]
    exact encodeGroup_ok ((writes_int hlower hupper).bind (writes_scripts hlength))
  | .requireTimeAfter slot, hvalid => by
    obtain ⟨hlower, hupper⟩ := SafeInteger.bounds hvalid
    refine ⟨_, ?_, ScriptItem.requireTimeAfter (integerHead_encodeInt hlower hupper)
      group_groupBytes⟩
    rw [NativeScript.fromCore, NativeScript.newTimelockStart, NativeScript.toCbor]
    exact encodeGroup_ok (writes_int hlower hupper)
  | .requireTimeBefore slot, hvalid => by
    obtain ⟨hlower, hupper⟩ := SafeInteger.bounds hvalid
    refine ⟨_, ?_, ScriptItem.requireTimeBefore (integerHead_encodeInt hlower hupper)
      group_groupBytes⟩
    rw [NativeScript.fromCore, NativeScript.newTimelockExpiry, NativeScript.toCbor]
    exact encodeGroup_ok (writes_int hlower hupper)
  | .requireGuard credential, hvalid => by
    rw [NativeScript.Valid] at hvalid
    obtain ⟨item, hencoded, hitem⟩ :=
      credentialToCbor_ok (show credential.hash.length < 2 ^ 64 by omega)
    refine ⟨_, ?_, ScriptItem.requireGuard hitem group_groupBytes⟩
    rw [NativeScript.fromCore, NativeScript.newRequireGuard, NativeScript.toCbor, hencoded]
    change encodeGroup .requireGuard (writeEncodedValue item) = _
    exact encodeGroup_ok (writes_encodedValue item)

theorem exists_scriptItems : ∀ {core : List Cardano.NativeScript}, AllScriptsValid core →
    ∃ elements, nativeScriptsToCbor (nativeScriptsFromCore core) = .ok elements ∧
      ScriptItems core elements
  | [], _ => ⟨[], rfl, ScriptItems.nil⟩
  | script :: scripts, hvalid => by
    rw [AllScriptsValid] at hvalid
    obtain ⟨item, hitem⟩ := exists_scriptItem hvalid.1
    obtain ⟨elements, hencoded, hitems⟩ := exists_scriptItems hvalid.2
    refine ⟨item :: elements, ?_, ScriptItems.cons hitem.item hitems⟩
    rw [nativeScriptsFromCore, nativeScriptsToCbor, hitem.encoded, hencoded]
    rfl

end

/-- A native script comes back from its encoding. Every encoding of it, whatever
the frames of its lists, is decoded to it, and the object keeps the bytes and
with them the hash. -/
theorem nativeScript_codec {script : Cardano.NativeScript} (hvalid : script.Valid) :
    (∃ cbor, (NativeScript.fromCore script).toCbor = .ok cbor ∧ (cbor.length < 2 ^ 53 →
      ∃ decoded, NativeScript.fromCbor cbor = .ok decoded ∧ decoded.toCore = script)) ∧
    ∀ cbor, ScriptItem script cbor → cbor.length < 2 ^ 53 →
      ∃ decoded, NativeScript.fromCbor cbor = .ok decoded ∧ decoded.toCore = script ∧
        decoded.toCbor = .ok cbor ∧
        ∀ blake2b, decoded.hash blake2b = .ok (blake2b (0 :: cbor)) := by
  have hdecodes : ∀ cbor, ScriptItem script cbor → cbor.length < 2 ^ 53 →
      ∃ decoded, NativeScript.fromCbor cbor = .ok decoded ∧ decoded.toCore = script ∧
        decoded.toCbor = .ok cbor := by
    intro cbor hitem hlength
    obtain ⟨decoded, hdecoded⟩ := hitem.decodes hvalid hlength le_rfl
    exact ⟨decoded, hdecoded.within, hdecoded.core,
      NativeScript.toCbor_of_originalBytes hdecoded.original hitem.dataItem.length_pos⟩
  constructor
  · obtain ⟨cbor, hcbor⟩ := exists_scriptItem hvalid
    refine ⟨cbor, hcbor.encoded, fun hlength => ?_⟩
    obtain ⟨decoded, hdecoded, hcore, _⟩ := hdecodes cbor hcbor.item hlength
    exact ⟨decoded, hdecoded, hcore⟩
  · intro cbor hitem hlength
    obtain ⟨decoded, hdecoded, hcore, hcbor⟩ := hdecodes cbor hitem hlength
    refine ⟨decoded, hdecoded, hcore, hcbor, fun blake2b => ?_⟩
    rw [NativeScript.hash, hcbor]
    rfl

def sampleScript : Cardano.NativeScript :=
  .requireAllOf [.requireSignature ⟨List.replicate 28 1, rfl⟩,
    .requireNOf 1 [.requireTimeAfter 4000, .requireAnyOf [.requireTimeBefore 9000]],
    .requireGuard ⟨.scriptHash, List.replicate 28 2⟩]

theorem nativeScript_codec_sample :
    sampleScript.Valid ∧
    (∃ cbor, (NativeScript.fromCore sampleScript).toCbor = .ok cbor ∧ (cbor.length < 2 ^ 53 →
      ∃ decoded, NativeScript.fromCbor cbor = .ok decoded ∧ decoded.toCore = sampleScript)) ∧
    ∀ cbor, ScriptItem sampleScript cbor → cbor.length < 2 ^ 53 →
      ∃ decoded, NativeScript.fromCbor cbor = .ok decoded ∧ decoded.toCore = sampleScript ∧
        decoded.toCbor = .ok cbor ∧
        ∀ blake2b, decoded.hash blake2b = .ok (blake2b (0 :: cbor)) := by
  have hvalid : sampleScript.Valid := by
    simp [sampleScript, NativeScript.Valid, AllScriptsValid, SafeInteger]
  exact ⟨hvalid, nativeScript_codec hvalid⟩

/-- The list of sub-scripts in an indefinite frame: `[1, [_ [4, 7]]]`. -/
example : (match NativeScript.fromCbor [0x82, 1, 0x9f, 0x82, 4, 7, 0xff] with
    | .ok (.scriptAll (some _) (some _) [.timelockStart _ _ 7]) => true
    | _ => false) = true := by decide

end CardanoSdk.Serialization
