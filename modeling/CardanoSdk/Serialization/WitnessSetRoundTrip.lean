import CardanoSdk.Serialization.TransactionWitnessSet

/-!
A core witness through `TransactionWitnessSet`: of bootstrap witnesses that share a
verification key one is left.
-/

namespace CardanoSdk.Serialization.WitnessCodec

open Lib Cbor Plutus Cardano
open TxConstruction (PlutusLanguageVersion)

section Parts

variable {Core Object : Type} {codec : Codec Core Object} {same : Core → Core → Prop}

/-- An optional part of a witness: the object made of it, its encoding, and what is read. -/
structure PartSurvives (codec : Codec Core Object) (write : Object → EncodeM Unit)
    (same : Core → Core → Prop) (core : Option Core) (object : Option Object)
    (encoded : Option (List UInt8)) (value : Option Object) : Prop where
  made : core.mapM codec.fromCore = .ok object
  rewritten : Rewritten write (readPart codec.fromCbor) object encoded value
  read : (∀ bytes, encoded = some bytes → bytes.length < 2 ^ 53) →
    Option.Rel (codec.Restores same) value core

theorem part_survives {core : Option Core} (h : ∀ value, core = some value →
    codec.RoundTrips same value) :
    ∃ object encoded value, PartSurvives codec (writePart codec.toCbor) same core object encoded
      value := by
  cases core with
  | none => exact ⟨none, none, none, rfl, Rewritten.none, fun _ => Option.Rel.none⟩
  | some core =>
    obtain ⟨object, hmade, bytes, value, hencodes, hitem, hread⟩ := keptItem_codec (h core rfl)
    refine ⟨some object, some bytes, some value, ?_, ?_, fun hfits => ?_⟩
    · change (codec.fromCore core >>= _) = _
      rw [hmade]
      rfl
    · exact Rewritten.some hencodes hitem fun hlength => (hread hlength).1
    · exact Option.Rel.some (hread (hfits bytes rfl)).2

theorem PartSurvives.toCore {write : Object → EncodeM Unit} {core : Option Core}
    {object value : Option Object} {encoded : Option (List UInt8)}
    (h : PartSurvives codec write same core object encoded value)
    (hfits : ∀ bytes, encoded = some bytes → bytes.length < 2 ^ 53) :
    ∃ core', value.mapM codec.toCore = .ok core' ∧ Option.Rel same core' core := by
  have hrel := h.read hfits
  cases hrel with
  | none => exact ⟨none, rfl, Option.Rel.none⟩
  | some hrestores =>
    obtain ⟨core', hcore, hsame⟩ := hrestores
    refine ⟨some core', ?_, Option.Rel.some hsame⟩
    change (codec.toCore _ >>= _) = _
    rw [hcore]
    rfl

end Parts

section Sets

variable {Core Object : Type} {codec : Codec Core Object} {same : Core → Core → Prop}
  {inConwayEra : Bool}

def someList {α : Type} (l : List α) : Option (List α) := if l = [] then none else some l

theorem someList_ne_nil {α : Type} {l l' : List α} (h : someList l = some l') : l = l' ∧ l' ≠ [] := by
  unfold someList at h
  split at h
  · cases h
  · cases h
    exact ⟨rfl, ‹_›⟩

theorem filter_size {fromCore : Core → Except DecodeException Object} {cores : Option (List Core)}
    {set : Option (CborSet Object)} (hsome : ∀ l, cores = some l → l ≠ [])
    (h : cores.mapM (CborSet.fromCore fromCore) = .ok set) :
    set.filter (fun set => set.size > 0) = set := by
  cases cores with
  | none =>
    cases h
    rfl
  | some cores =>
    obtain ⟨made, hmade, hset⟩ := bind_ok h
    cases hset
    have hsize := size_fromCore hmade
    have hpos := List.length_pos_iff.mpr (hsome cores rfl)
    rw [Option.filter_some, if_pos (decide_eq_true (by omega))]

theorem set_survives {cores : Option (List Core)}
    (h : ∀ l, cores = some l → l.length < 2 ^ 64 ∧ ∀ core ∈ l, codec.RoundTrips same core) :
    ∃ object encoded value,
      PartSurvives (cborSetCodec inConwayEra codec) (writePart (cborSetCodec inConwayEra codec).toCbor)
        (List.Forall₂ same) cores object encoded value :=
  part_survives fun l hl => cborSet_roundTrips (h l hl).1 (h l hl).2

def writeUnique {κ : Type} [DecidableEq κ] (inConwayEra : Bool) (codec : Codec Core Object)
    (key : Object → κ) (set : CborSet Object) : EncodeM Unit :=
  writePart (CborSet.toCbor inConwayEra codec.toCbor)
    (set.setValues (uniqWith (sameKey key) set.values))

theorem unique_survives {κ : Type} [DecidableEq κ] {key : Object → κ} {coreKey : Core → κ}
    {cores : Option (List Core)}
    (hkey : ∀ core object, codec.fromCore core = .ok object → coreKey core = key object)
    (h : ∀ l, cores = some l → l.length < 2 ^ 64 ∧ ∀ core ∈ l, codec.RoundTrips same core) :
    ∃ object encoded value,
      PartSurvives (cborSetCodec inConwayEra codec) (writeUnique inConwayEra codec key)
        (fun cores' cores => List.Forall₂ same cores' (uniqWith (sameKey coreKey) cores))
        cores object encoded value := by
  cases cores with
  | none => exact ⟨none, none, none, rfl, Rewritten.none, fun _ => Option.Rel.none⟩
  | some cores =>
    obtain ⟨hcount, hparts⟩ := h cores rfl
    obtain ⟨objects, elements, hobjects⟩ := parts_survive hparts
    have hunique := forall₂_uniqWith hkey hobjects.made
    have hfew : (uniqWith (sameKey coreKey) cores).length < 2 ^ 64 := by
      have hle := List.Subperm.length_le (List.subperm_of_subset
        (List.Nodup.of_map coreKey nodup_uniqWith) fun core hmem =>
          (mem_of_mem_uniqWith hmem : core ∈ cores))
      omega
    have hround : (cborSetCodec inConwayEra codec).RoundTrips (List.Forall₂ same)
        (uniqWith (sameKey coreKey) cores) :=
      cborSet_roundTrips hfew fun core hmem => hparts core (mem_of_mem_uniqWith hmem)
    obtain ⟨object, hmade, bytes, value, hencodes, hitem, hread⟩ := keptItem_codec hround
    have hobject : object = ⟨uniqWith (sameKey key) objects, none⟩ := by
      change CborSet.fromCore codec.fromCore _ = _ at hmade
      rw [CborSet.fromCore, mapM_of_forall₂ hunique] at hmade
      exact (Except.ok.inj hmade).symm
    refine ⟨some ⟨objects, none⟩, some bytes, some value, ?_, ?_, fun hfits => ?_⟩
    · change (CborSet.fromCore codec.fromCore cores >>= _) = _
      rw [CborSet.fromCore, mapM_of_forall₂ hobjects.made]
      rfl
    · rw [hobject] at hencodes
      exact Rewritten.some hencodes hitem fun hlength => (hread hlength).1
    · exact Option.Rel.some (hread (hfits bytes rfl)).2

end Sets

def segregated (scripts : List Script) : CddlScripts where
  native := someList (scripts.filterMap nativeOf)
  plutusV1 := someList (scripts.filterMap (plutusOf .v1))
  plutusV2 := someList (scripts.filterMap (plutusOf .v2))
  plutusV3 := someList (scripts.filterMap (plutusOf .v3))

theorem addScript_someList {α : Type} (l : List α) (script : α) :
    AuxiliaryData.addScript (someList l) script = someList (l ++ [script]) := by
  cases l with
  | nil => rfl
  | cons first rest => rfl

theorem add_segregated {before : List Script} {script : Script}
    (hsupported : scriptLanguage script ≠ some .v4) :
    (segregated before).add script = .ok (segregated (before ++ [script])) := by
  have hother {version version' : PlutusLanguageVersion} {script : PlutusScript}
      (hversion : script.version = version) (hne : version ≠ version') :
      (before ++ [Script.plutus script]).filterMap (plutusOf version') =
        before.filterMap (plutusOf version') := by
    have hnone : plutusOf version' (.plutus script) = none := if_neg (hversion ▸ hne)
    rw [List.filterMap_append, List.filterMap_cons_none hnone, List.filterMap_nil, List.append_nil]
  have hsame {version : PlutusLanguageVersion} {script : PlutusScript}
      (hversion : script.version = version) :
      (before ++ [Script.plutus script]).filterMap (plutusOf version) =
        before.filterMap (plutusOf version) ++ [script] := by
    have hsome : plutusOf version (.plutus script) = some script := if_pos hversion
    rw [List.filterMap_append, List.filterMap_cons_some hsome, List.filterMap_nil]
  have hnative {script : PlutusScript} : (before ++ [Script.plutus script]).filterMap nativeOf =
      before.filterMap nativeOf := by
    rw [List.filterMap_append, List.filterMap_cons_none rfl, List.filterMap_nil, List.append_nil]
  cases script with
  | native script =>
    have hplutus (version : PlutusLanguageVersion) :
        (before ++ [Script.native script]).filterMap (plutusOf version) =
          before.filterMap (plutusOf version) := by
      rw [List.filterMap_append, List.filterMap_cons_none rfl, List.filterMap_nil,
        List.append_nil]
    rw [segregated, segregated, hplutus, hplutus, hplutus, List.filterMap_append]
    exact congrArg (fun native => Except.ok { segregated before with native := native })
      (addScript_someList _ script)
  | plutus script =>
    cases hversion : script.version with
    | v1 =>
      rw [segregated, segregated, hnative, hsame hversion, hother hversion (by decide),
        hother hversion (by decide), ← addScript_someList]
      simp only [CddlScripts.add, hversion]
    | v2 =>
      rw [segregated, segregated, hnative, hsame hversion, hother hversion (by decide),
        hother hversion (by decide), ← addScript_someList]
      simp only [CddlScripts.add, hversion]
    | v3 =>
      rw [segregated, segregated, hnative, hsame hversion, hother hversion (by decide),
        hother hversion (by decide), ← addScript_someList]
      simp only [CddlScripts.add, hversion]
    | v4 => exact absurd (congrArg some hversion) hsupported

variable {inConwayEra : Bool} {witness : Witness} {scripts : List Script}

theorem reduce_segregated (hsupported : ∀ script ∈ scripts, scriptLanguage script ≠ some .v4)
    (before : List Script) :
    scripts.foldlM CddlScripts.add (segregated before) = .ok (segregated (before ++ scripts)) := by
  induction scripts generalizing before with
  | nil => rw [List.append_nil]; rfl
  | cons script scripts ih =>
    rw [List.forall_mem_cons] at hsupported
    rw [List.foldlM_cons, add_segregated hsupported.1]
    change scripts.foldlM CddlScripts.add (segregated (before ++ [script])) = _
    rw [ih hsupported.2, List.append_assoc]
    rfl

variable {Object : Type} {cores : Option (List CoreRedeemer)}

theorem setToCore_ok {Core : Type} {codec : Codec Core Object} {cores : List Core}
    {value : Option (CborSet Object)}
    (h : Option.Rel ((cborSetCodec inConwayEra codec).Restores (List.Forall₂ Eq)) value
      (someList cores)) : TransactionWitnessSet.setToCore codec.toCore value = .ok cores := by
  generalize hcores : someList cores = core at h
  cases h with
  | none =>
    cases cores with
    | nil => rfl
    | cons first rest => cases hcores
  | some hrestores =>
    obtain ⟨rfl, -⟩ := someList_ne_nil hcores
    obtain ⟨cores', hcore, hsame⟩ := hrestores
    rw [List.forall₂_eq_eq_eq] at hsame
    exact hsame ▸ hcore

/-- The lists of a witness are absent or have elements, which fit where they are
written. Its redeemers have purposes and indices of their own, and its scripts
and data come back from their encodings. -/
structure ValidWitness (witness : Witness) : Prop where
  signatures : witness.signatures.entries.length < 2 ^ 64 ∧
    ∀ entry ∈ witness.signatures.entries, entry.1.length < 2 ^ 64 ∧ entry.2.length < 2 ^ 64
  bootstrap : ∀ l, witness.bootstrap = some l →
    l ≠ [] ∧ l.length < 2 ^ 64 ∧ ∀ bootstrap ∈ l, FitsBootstrap bootstrap
  datums : ∀ l, witness.datums = some l →
    l ≠ [] ∧ l.length < 2 ^ 64 ∧ ∀ datum ∈ l, plutusDataCodec.RoundTrips SameData datum
  scripts : ∀ l, witness.scripts = some l →
    l ≠ [] ∧ l.length < 2 ^ 64 ∧ ∀ script ∈ l,
      scriptLanguage script ≠ some .v4 ∧ ScriptRoundTrips script
  redeemers : ∀ l, witness.redeemers = some l → l ≠ [] ∧ ValidRedeemers l

/-- The same witness but for caches and for the order of scripts of different languages. -/
structure SameWitness (witness witness' : Witness) : Prop where
  signatures : witness.signatures = witness'.signatures
  bootstrap : witness.bootstrap = witness'.bootstrap
  datums : Option.Rel (List.Forall₂ SameData) witness.datums witness'.datums
  scripts : witness.scripts = witness'.scripts.map byLanguage
  redeemers : Option.Rel (List.Forall₂ SameRedeemer) witness.redeemers witness'.redeemers

def keptWitness (witness : Witness) : Witness :=
  { witness with bootstrap := witness.bootstrap.map fun bootstraps =>
                  (uniqWith (sameKey BootstrapWitness.key) bootstraps).map withAttributes }

structure WitnessSurvives (inConwayEra : Bool) (witness : Witness)
    (object : TransactionWitnessSet) (encoded : Field → Option (List UInt8))
    (values : (field : Field) → Option field.Value) : Prop where
  made : TransactionWitnessSet.fromCore witness = .ok object
  fresh : object.originalBytes = none
  rewritten : ∀ field : Field, Rewritten (field.write inConwayEra) field.read
    (object.getSome field) (encoded field) (values field)
  read : (∀ field bytes, encoded field = some bytes → bytes.length < 2 ^ 53) →
    ∀ decoded : TransactionWitnessSet, (∀ field, decoded.get field = values field) →
      ∃ core, decoded.toCore = .ok core ∧ SameWitness core (keptWitness witness)

theorem signatures_survive (inConwayEra : Bool) {signatures : JsMap (List UInt8) (List UInt8)}
    (hcount : signatures.entries.length < 2 ^ 64)
    (hfits : ∀ entry ∈ signatures.entries, entry.1.length < 2 ^ 64 ∧ entry.2.length < 2 ^ 64) :
    ∃ vkeys encoded value,
      CborSet.fromCore vkeyWitnessCodec.fromCore signatures.entries = .ok vkeys ∧
      Rewritten (writeUnique inConwayEra vkeyWitnessCodec VkeyWitness.vkey)
        (readPart (CborSet.fromCbor vkeyWitnessCodec.fromCbor))
        ((some vkeys).filter fun vkeys => vkeys.size > 0) encoded value ∧
      ((∀ bytes, encoded = some bytes → bytes.length < 2 ^ 53) →
        TransactionWitnessSet.setToCore vkeyWitnessCodec.toCore value = .ok signatures.entries) := by
  obtain ⟨object, encoded, value, hset⟩ :=
    @unique_survives _ _ vkeyWitnessCodec Eq inConwayEra _ _ VkeyWitness.vkey Prod.fst
      (someList signatures.entries) (fun core object h => by cases h; rfl) fun l hl => by
        obtain ⟨rfl, -⟩ := someList_ne_nil hl
        exact ⟨hcount, fun entry hmem =>
          vkeyWitness_roundTrips (hfits entry hmem).1 (hfits entry hmem).2⟩
  have hunique := uniqWith_of_nodup signatures.nodup
  by_cases hempty : signatures.entries = []
  · refine ⟨⟨[], none⟩, none, none, ?_, Rewritten.none, fun _ => ?_⟩
    · rw [hempty]
      rfl
    · rw [hempty]
      rfl
  · have hsome : someList signatures.entries = some signatures.entries := if_neg hempty
    rw [hsome] at hset
    obtain ⟨vkeys, hmade, hobject⟩ := bind_ok hset.made
    cases hobject
    refine ⟨vkeys, encoded, value, hmade, ?_, fun hfits => ?_⟩
    · rw [filter_size (fun l hl => by cases hl; exact hempty) hset.made]
      exact hset.rewritten
    · obtain ⟨core', hcore, hsame⟩ := hset.toCore hfits
      cases hsame with
      | some hsame =>
        rw [hunique, List.forall₂_eq_eq_eq] at hsame
        subst hsame
        cases value with
        | none => cases hcore
        | some value =>
          obtain ⟨cores, hcores, hpure⟩ := bind_ok hcore
          cases hpure
          exact hcores

theorem setScripts_ok {witness : TransactionWitnessSet}
    (hsupported : ∀ script ∈ scripts, scriptLanguage script ≠ some .v4)
    {native : Option (CborSet NativeScript)}
    {plutusV1 : Option (CborSet (PlutusVersionScript .v1))}
    {plutusV2 : Option (CborSet (PlutusVersionScript .v2))}
    {plutusV3 : Option (CborSet (PlutusVersionScript .v3))}
    (hnative : (segregated scripts).native.mapM
      (cborSetCodec inConwayEra nativeScriptCodec).fromCore = .ok native)
    (hplutusV1 : (segregated scripts).plutusV1.mapM
      (cborSetCodec inConwayEra (plutusScriptCodec .v1)).fromCore = .ok plutusV1)
    (hplutusV2 : (segregated scripts).plutusV2.mapM
      (cborSetCodec inConwayEra (plutusScriptCodec .v2)).fromCore = .ok plutusV2)
    (hplutusV3 : (segregated scripts).plutusV3.mapM
      (cborSetCodec inConwayEra (plutusScriptCodec .v3)).fromCore = .ok plutusV3) :
    witness.setScripts scripts = .ok { witness with
      nativeScripts := native
      plutusV1Scripts := plutusV1
      plutusV2Scripts := plutusV2
      plutusV3Scripts := plutusV3 } := by
  have hreduce : scripts.foldlM CddlScripts.add {} = .ok (segregated scripts) :=
    reduce_segregated hsupported []
  refine (bind_of_ok hreduce).trans ?_
  refine (bind_of_ok hnative).trans ?_
  refine (bind_of_ok hplutusV1).trans ?_
  refine (bind_of_ok hplutusV2).trans ?_
  exact bind_of_ok hplutusV3

theorem filter_redeemers {redeemers : Option Redeemers} (hsome : ∀ l, cores = some l → l ≠ [])
    (h : cores.mapM Redeemers.fromCore = .ok redeemers) :
    redeemers.filter (fun redeemers => redeemers.size > 0) = redeemers := by
  cases cores with
  | none =>
    cases h
    rfl
  | some cores =>
    obtain ⟨made, hmade, hset⟩ := bind_ok h
    cases hset
    obtain ⟨values, hvalues, hpure⟩ := bind_ok hmade
    cases hpure
    have hsize : values.length = cores.length := (forall₂_of_mapM_ok hvalues).length_eq.symm
    have hpos := List.length_pos_iff.mpr (hsome cores rfl)
    have hlarge : (⟨values, none⟩ : Redeemers).size > 0 := by
      change values.length > 0
      omega
    rw [Option.filter_some, if_pos (decide_eq_true hlarge)]

theorem size_restored {redeemers : Redeemers} {cores : List CoreRedeemer}
    (h : (redeemersCodec inConwayEra).Restores (List.Forall₂ SameRedeemer) redeemers cores) :
    redeemers.size = cores.length := by
  obtain ⟨cores', hcores, hsame⟩ := h
  exact (forall₂_of_mapM_ok hcores).length_eq.trans hsame.length_eq

theorem redeemersToCore_eq {value : Option Redeemers} (hsome : ∀ l, cores = some l → l ≠ [])
    (h : Option.Rel ((redeemersCodec inConwayEra).Restores (List.Forall₂ SameRedeemer)) value cores) :
    TransactionWitnessSet.redeemersToCore value = value.mapM (redeemersCodec inConwayEra).toCore := by
  cases h with
  | none => rfl
  | @some redeemers l hrestores =>
    have hpos := List.length_pos_iff.mpr (hsome l rfl)
    have hlarge : redeemers.size > 0 := by
      rw [size_restored hrestores]
      exact hpos
    rw [TransactionWitnessSet.redeemersToCore, Option.filter_some,
      if_pos (decide_eq_true hlarge)]
    rfl

theorem bootstraps_eq {bootstraps bootstraps' : Option (List Cardano.BootstrapWitness)}
    (h : Option.Rel (fun cores' cores => List.Forall₂ (fun core' core => core' = withAttributes core)
      cores' (uniqWith (sameKey BootstrapWitness.key) cores)) bootstraps' bootstraps) :
    bootstraps' = bootstraps.map fun bootstraps =>
      (uniqWith (sameKey BootstrapWitness.key) bootstraps).map withAttributes := by
  cases h with
  | none => rfl
  | some h =>
    have hmap := List.forall₂_map_right_iff.mpr h
    rw [List.forall₂_eq_eq_eq] at hmap
    rw [hmap, Option.map_some]

theorem rewritten_filter {write : Object → EncodeM Unit} {read : DecodeM Object}
    {p : Object → Bool} {object value : Option Object} {encoded : Option (List UInt8)}
    (hsize : object.filter p = object) (h : Rewritten write read object encoded value) :
    Rewritten write read (object.filter p) encoded value := by
  rw [hsize]
  exact h

theorem byLanguage_eq (hsupported : ∀ script ∈ scripts, scriptLanguage script ≠ some .v4) :
    (scripts.filterMap (plutusOf .v1)).map Script.plutus ++
      (scripts.filterMap (plutusOf .v2)).map Script.plutus ++
      (scripts.filterMap (plutusOf .v3)).map Script.plutus ++
      (scripts.filterMap nativeOf).map Script.native = byLanguage scripts := by
  have hnone : scripts.filter (fun script => scriptLanguage script = some .v4) = [] :=
    List.filter_eq_nil_iff.mpr fun script hmem => by simpa using hsupported script hmem
  simp only [byLanguage, List.flatMap_cons, List.flatMap_nil, hnone, filter_native, filter_plutus,
    List.append_nil, List.nil_append, List.append_assoc]

theorem getCoreScripts_ok {witness : TransactionWitnessSet} {scripts : List Script}
    (hsupported : ∀ script ∈ scripts, scriptLanguage script ≠ some .v4)
    (hplutusV1 : TransactionWitnessSet.setToCore (plutusScriptCodec .v1).toCore
      witness.plutusV1Scripts = .ok (scripts.filterMap (plutusOf .v1)))
    (hplutusV2 : TransactionWitnessSet.setToCore (plutusScriptCodec .v2).toCore
      witness.plutusV2Scripts = .ok (scripts.filterMap (plutusOf .v2)))
    (hplutusV3 : TransactionWitnessSet.setToCore (plutusScriptCodec .v3).toCore
      witness.plutusV3Scripts = .ok (scripts.filterMap (plutusOf .v3)))
    (hnative : TransactionWitnessSet.setToCore nativeScriptCodec.toCore witness.nativeScripts =
      .ok (scripts.filterMap nativeOf)) :
    witness.getCoreScripts = .ok (byLanguage scripts) := by
  refine (bind_of_ok hplutusV1).trans ?_
  refine (bind_of_ok hplutusV2).trans ?_
  refine (bind_of_ok hplutusV3).trans ?_
  refine (bind_of_ok hnative).trans ?_
  rw [← byLanguage_eq hsupported]
  rfl

theorem scripts_toCore {scripts : Option (List Script)} (hsome : ∀ l, scripts = some l → l ≠ []) :
    (if (byLanguage (scripts.getD [])).length > 0 then some (byLanguage (scripts.getD []))
      else none) = scripts.map byLanguage := by
  cases scripts with
  | none => rfl
  | some scripts =>
    have hlength := (byLanguage_perm scripts).length_eq
    have hpos := List.length_pos_iff.mpr (hsome scripts rfl)
    exact if_pos (by rw [Option.getD_some]; omega)

theorem witness_survives (inConwayEra : Bool) (hvalid : ValidWitness witness)
    (hcodes : ∀ l, witness.bootstrap = some l → ∀ bootstrap ∈ l, HasChainCode bootstrap) :
    ∃ object encoded values, WitnessSurvives inConwayEra witness object encoded values := by
  obtain ⟨vkeys, vkeyBytes, vkeyValue, hvkeys, hvkeyRewritten, hsignatures⟩ :=
    signatures_survive inConwayEra hvalid.signatures.1 hvalid.signatures.2
  have hscripts : ∀ script ∈ witness.scripts.getD [],
      scriptLanguage script ≠ some .v4 ∧ ScriptRoundTrips script := by
    intro script hmem
    cases hl : witness.scripts with
    | none =>
      rw [hl] at hmem
      cases hmem
    | some l =>
      rw [hl] at hmem
      exact (hvalid.scripts l hl).2.2 script hmem
  have hcount {α : Type} (f : Script → Option α) :
      ((witness.scripts.getD []).filterMap f).length < 2 ^ 64 := by
    have hle := List.length_filterMap_le f (witness.scripts.getD [])
    cases hl : witness.scripts with
    | none => exact Nat.two_pow_pos 64
    | some l =>
      have hlt := (hvalid.scripts l hl).2.1
      rw [hl, Option.getD_some] at hle
      rw [Option.getD_some]
      omega
  have hround := fun script hmem => (hscripts script hmem).2
  obtain ⟨native, nativeBytes, nativeValue, hnative⟩ :=
    @set_survives _ _ nativeScriptCodec Eq inConwayEra (segregated (witness.scripts.getD [])).native
      fun l hl => by
        obtain ⟨rfl, -⟩ := someList_ne_nil hl
        exact ⟨hcount _, fun _ hmem => native_roundTrips hround hmem⟩
  have hplutus (version : PlutusLanguageVersion) :=
    @set_survives _ _ (plutusScriptCodec version) Eq inConwayEra
      (someList ((witness.scripts.getD []).filterMap (plutusOf version))) fun l hl => by
        obtain ⟨rfl, -⟩ := someList_ne_nil hl
        exact ⟨hcount _, fun _ hmem => plutus_roundTrips hround hmem⟩
  obtain ⟨plutusV1, plutusV1Bytes, plutusV1Value, hplutusV1⟩ := hplutus .v1
  obtain ⟨plutusV2, plutusV2Bytes, plutusV2Value, hplutusV2⟩ := hplutus .v2
  obtain ⟨plutusV3, plutusV3Bytes, plutusV3Value, hplutusV3⟩ := hplutus .v3
  obtain ⟨datums, datumBytes, datumValue, hdatums⟩ :=
    @set_survives _ _ plutusDataCodec SameData inConwayEra witness.datums
      fun l hl => (hvalid.datums l hl).2
  obtain ⟨redeemers, redeemerBytes, redeemerValue, hredeemers⟩ :=
    @part_survives _ _ (redeemersCodec inConwayEra) (List.Forall₂ SameRedeemer) witness.redeemers
      fun l hl => redeemers_roundTrips (hvalid.redeemers l hl).2
  obtain ⟨bootstraps, bootstrapBytes, bootstrapValue, hbootstraps⟩ :=
    @unique_survives _ _ bootstrapWitnessCodec (fun core' core => core' = withAttributes core)
      inConwayEra _ _ BootstrapWitness.vkey Cardano.BootstrapWitness.key witness.bootstrap
      (fun core object h => by
        obtain ⟨chainCode, hchainCode, hsize⟩ := hasChainCode_of_fromCore h
        cases (fromCore_bootstrap hchainCode hsize).symm.trans h
        rfl)
      fun l hl => ⟨(hvalid.bootstrap l hl).2.1, fun bootstrap hmem =>
        bootstrapWitness_roundTrips (hcodes l hl bootstrap hmem)
          ((hvalid.bootstrap l hl).2.2 bootstrap hmem)⟩
  refine ⟨{ vkeywitnesses := some vkeys, nativeScripts := native, bootstrapWitnesses := bootstraps,
            plutusV1Scripts := plutusV1, plutusData := datums, redeemers := redeemers,
            plutusV2Scripts := plutusV2, plutusV3Scripts := plutusV3 },
    fun field => Field.casesOn (motive := fun _ => Option (List UInt8)) field vkeyBytes nativeBytes
      bootstrapBytes plutusV1Bytes datumBytes redeemerBytes plutusV2Bytes plutusV3Bytes,
    fun field => Field.casesOn (motive := fun field => Option field.Value) field vkeyValue
      nativeValue bootstrapValue plutusV1Value datumValue redeemerValue plutusV2Value
      plutusV3Value, ?_, rfl, ?_, ?_⟩
  · refine (bind_of_ok hvkeys).trans ?_
    refine (bind_of_ok (setScripts_ok (fun script hmem => (hscripts script hmem).1) hnative.made
      hplutusV1.made hplutusV2.made hplutusV3.made)).trans ?_
    refine (bind_of_ok hredeemers.made).trans ?_
    refine (bind_of_ok hdatums.made).trans ?_
    exact bind_of_ok hbootstraps.made
  · have hlist {α : Type} (l l' : List α) (h : someList l = some l') : l' ≠ [] :=
      (someList_ne_nil h).2
    intro field
    cases field with
    | vkeywitnesses => exact hvkeyRewritten
    | nativeScripts => exact rewritten_filter (filter_size (hlist _) hnative.made) hnative.rewritten
    | bootstrapWitnesses =>
      exact rewritten_filter (filter_size (fun l hl => (hvalid.bootstrap l hl).1) hbootstraps.made)
        hbootstraps.rewritten
    | plutusV1Scripts =>
      exact rewritten_filter (filter_size (hlist _) hplutusV1.made) hplutusV1.rewritten
    | plutusData =>
      exact rewritten_filter (filter_size (fun l hl => (hvalid.datums l hl).1) hdatums.made)
        hdatums.rewritten
    | redeemers =>
      exact rewritten_filter
        (filter_redeemers (fun l hl => (hvalid.redeemers l hl).1) hredeemers.made)
        hredeemers.rewritten
    | plutusV2Scripts =>
      exact rewritten_filter (filter_size (hlist _) hplutusV2.made) hplutusV2.rewritten
    | plutusV3Scripts =>
      exact rewritten_filter (filter_size (hlist _) hplutusV3.made) hplutusV3.rewritten
  · intro hfits decoded hdecoded
    have hvkeyCore := hsignatures (hfits .vkeywitnesses)
    have hnativeCore := setToCore_ok (hnative.read (hfits .nativeScripts))
    have hplutusV1Core := setToCore_ok (hplutusV1.read (hfits .plutusV1Scripts))
    have hplutusV2Core := setToCore_ok (hplutusV2.read (hfits .plutusV2Scripts))
    have hplutusV3Core := setToCore_ok (hplutusV3.read (hfits .plutusV3Scripts))
    obtain ⟨datums', hdatumCore, hdatumSame⟩ := hdatums.toCore (hfits .plutusData)
    obtain ⟨redeemers', hredeemerCore, hredeemerSame⟩ := hredeemers.toCore (hfits .redeemers)
    obtain ⟨bootstraps', hbootstrapCore, hbootstrapSame⟩ :=
      hbootstraps.toCore (hfits .bootstrapWitnesses)
    have hscriptCore := @getCoreScripts_ok decoded _
      (fun script hmem => (hscripts script hmem).1)
      ((congrArg _ (hdecoded .plutusV1Scripts)).trans hplutusV1Core)
      ((congrArg _ (hdecoded .plutusV2Scripts)).trans hplutusV2Core)
      ((congrArg _ (hdecoded .plutusV3Scripts)).trans hplutusV3Core)
      ((congrArg _ (hdecoded .nativeScripts)).trans hnativeCore)
    have hredeemersCore : TransactionWitnessSet.redeemersToCore decoded.redeemers =
        .ok redeemers' := by
      refine (congrArg _ (hdecoded .redeemers)).trans ?_
      rw [redeemersToCore_eq (fun l hl => (hvalid.redeemers l hl).1)
        (hredeemers.read (hfits .redeemers))]
      exact hredeemerCore
    have hsame : JsMap.ofList witness.signatures.entries = witness.signatures :=
      JsMap.ext (JsMap.entries_ofList_of_nodup witness.signatures.nodup)
    have hgrouped := scripts_toCore fun l hl => (hvalid.scripts l hl).1
    refine ⟨⟨redeemers', JsMap.ofList witness.signatures.entries, witness.scripts.map byLanguage,
      bootstraps', datums'⟩, ?_, hsame, bootstraps_eq hbootstrapSame, hdatumSame, rfl,
      hredeemerSame⟩
    rw [← hgrouped]
    refine (bind_of_ok hscriptCore).trans ?_
    refine (bind_of_ok ((congrArg _ (hdecoded .bootstrapWitnesses)).trans hbootstrapCore)).trans ?_
    refine (bind_of_ok ((congrArg _ (hdecoded .plutusData)).trans hdatumCore)).trans ?_
    refine (bind_of_ok hredeemersCore).trans ?_
    exact bind_of_ok ((congrArg _ (hdecoded .vkeywitnesses)).trans hvkeyCore)

theorem nodup_written : Field.written.Nodup := by decide

theorem mem_written (field : Field) : field ∈ Field.written := by
  cases field <;> decide

theorem keyOf_fields : KeyOf TransactionWitnessSet.fields Field.key where
  range field := by cases field <;> decide
  known field := by cases field <;> rfl

theorem puts_fields : TransactionWitnessSet.fields.Puts where
  get_set_new witness field value _ := by cases field <;> rfl
  get_set_other witness field value other hne := by
    cases field <;> cases other <;> first | rfl | exact absurd rfl hne

theorem getMapSize_eq (witness : TransactionWitnessSet) :
    witness.getMapSize = Field.written.countP fun field => (witness.getSome field).isSome := by
  have hcount {α : Type} (value : Option α) : fieldCount value = if value.isSome then 1 else 0 := by
    cases value <;> rfl
  simp only [TransactionWitnessSet.getMapSize, hcount, Field.written, List.countP_cons,
    List.countP_nil]
  omega

theorem keptWitness_comes_back (inConwayEra strict : Bool) (hvalid : ValidWitness witness)
    (hcodes : ∀ l, witness.bootstrap = some l → ∀ bootstrap ∈ l, HasChainCode bootstrap) :
    ∃ object cbor, ∃ entries : List KeyedEntry,
      TransactionWitnessSet.fromCore witness = .ok object ∧
      object.toCbor inConwayEra = .ok cbor ∧
      cbor = encodeHead .map entries.length ++ (entryItems entries).flatten ∧
      (cbor.length < 2 ^ 53 → ∃ decoded core,
        TransactionWitnessSet.fromCbor strict cbor = .ok decoded ∧ decoded.toCore = .ok core ∧
          SameWitness core (keptWitness witness)) := by
  obtain ⟨object, encoded, values, h⟩ := witness_survives inConwayEra hvalid hcodes
  obtain ⟨entries, cbor, hcbor, -, hencodes, -, hshort, hreads⟩ :=
    @exists_keyedMap _ TransactionWitnessSet.fields _ (TransactionWitnessSet.unknownKey strict) _ _ _
      puts_fields keyOf_fields _ h.rewritten _ nodup_written (by decide)
  refine ⟨object, cbor, entries, h.made, ?_, hcbor, fun hlength => ?_⟩
  · rw [TransactionWitnessSet.toCbor, h.fresh, cachedOr_none, getMapSize_eq]
    exact encodeAsHex_ok hencodes
  · obtain ⟨s, hread, hget⟩ := hreads hlength {} fun field _ => by cases field <;> rfl
    obtain ⟨core, hcore, hsame⟩ := h.read
      (fun field bytes hbytes => (hshort field (mem_written field) bytes hbytes).trans_lt hlength)
      { s with originalBytes := some cbor } fun field => by
        have hfield := (hget field).trans (if_pos (mem_written field))
        cases field <;> exact hfield
    refine ⟨{ s with originalBytes := some cbor }, core, ?_, hcore, hsame⟩
    refine decodeWith_ok hlength fun reader hfresh => ?_
    exact Succeeds.bind (hread reader [] hfresh.bytes hfresh.accepts) Succeeds.pure

def ComesBack (inConwayEra strict : Bool) (witness : Witness) : Prop :=
  ∃ object cbor, ∃ entries : List KeyedEntry, ∃ decoded core,
    TransactionWitnessSet.fromCore witness = .ok object ∧
    object.toCbor inConwayEra = .ok cbor ∧
    cbor = encodeHead .map entries.length ++ (entryItems entries).flatten ∧
    TransactionWitnessSet.fromCbor strict cbor = .ok decoded ∧ decoded.toCore = .ok core ∧
    SameWitness core witness

/-- Bootstrap witnesses that can all be written: they have chain codes and
attributes, and no two have one verification key. -/
structure Writable (bootstraps : List Cardano.BootstrapWitness) : Prop where
  chainCodes : ∀ bootstrap ∈ bootstraps, HasChainCode bootstrap
  attributes : ∀ bootstrap ∈ bootstraps, ∃ attributes,
    bootstrap.addressAttributes = some attributes ∧ attributes ≠ []
  keys : (bootstraps.map BootstrapWitness.key).Nodup

theorem withAttributes_eq_iff {core : Cardano.BootstrapWitness} :
    withAttributes core = core ↔
      ∃ attributes, core.addressAttributes = some attributes ∧ attributes ≠ [] := by
  obtain ⟨signature, chainCode, addressAttributes, key⟩ := core
  constructor
  · intro h
    have hattributes := congrArg BootstrapWitness.addressAttributes h
    refine ⟨_, hattributes.symm, ?_⟩
    cases addressAttributes with
    | none => exact List.cons_ne_nil _ _
    | some attributes =>
      cases attributes with
      | nil => exact List.cons_ne_nil _ _
      | cons first rest => exact List.cons_ne_nil _ _
  · rintro ⟨attributes, hattributes, hne⟩
    change addressAttributes = some attributes at hattributes
    subst hattributes
    cases attributes with
    | nil => exact absurd rfl hne
    | cons first rest => rfl

theorem kept_eq_iff {bootstraps : List Cardano.BootstrapWitness} :
    (uniqWith (sameKey BootstrapWitness.key) bootstraps).map withAttributes = bootstraps ↔
      (bootstraps.map BootstrapWitness.key).Nodup ∧
        ∀ bootstrap ∈ bootstraps, withAttributes bootstrap = bootstrap := by
  constructor
  · intro h
    have hkeys : (((uniqWith (sameKey BootstrapWitness.key) bootstraps).map withAttributes).map
        BootstrapWitness.key).Nodup := by
      rw [List.map_map]
      exact nodup_uniqWith
    rw [h] at hkeys
    refine ⟨hkeys, fun bootstrap hmem => ?_⟩
    rw [uniqWith_of_nodup hkeys] at h
    exact List.map_inj_left.mp (h.trans (List.map_id _).symm) bootstrap hmem
  · rintro ⟨hkeys, hattributes⟩
    rw [uniqWith_of_nodup hkeys]
    exact (List.map_inj_left.mpr hattributes).trans (List.map_id _)

theorem hasChainCodes_of_fromCore {object : TransactionWitnessSet}
    (h : TransactionWitnessSet.fromCore witness = .ok object) :
    ∀ l, witness.bootstrap = some l → ∀ bootstrap ∈ l, HasChainCode bootstrap := by
  intro l hl bootstrap hmem
  obtain ⟨vkeys, -, h⟩ := bind_ok h
  obtain ⟨withScripts, -, h⟩ := bind_ok h
  obtain ⟨redeemers, -, h⟩ := bind_ok h
  obtain ⟨plutusData, -, h⟩ := bind_ok h
  obtain ⟨bootstraps, hbootstraps, -⟩ := bind_ok h
  rw [hl] at hbootstraps
  obtain ⟨made, hmade, -⟩ := bind_ok hbootstraps
  obtain ⟨objects, hobjects, -⟩ := bind_ok hmade
  obtain ⟨object, hobject⟩ := mapM_ok_mem hobjects bootstrap hmem
  exact hasChainCode_of_fromCore hobject

theorem ComesBack.writable {strict : Bool} (hvalid : ValidWitness witness)
    (hfits : (transactionWitnessSetCodec inConwayEra strict).Fits witness)
    (h : ComesBack inConwayEra strict witness) : ∀ l, witness.bootstrap = some l → Writable l := by
  obtain ⟨object, cbor, -, decoded, core, hmade, hwritten, -, hread, hcore, hsame⟩ := h
  have hcodes := hasChainCodes_of_fromCore hmade
  obtain ⟨object', cbor', -, hmade', hwritten', -, hkept⟩ :=
    keptWitness_comes_back inConwayEra strict hvalid hcodes
  cases hmade.symm.trans hmade'
  cases hwritten.symm.trans hwritten'
  obtain ⟨decoded', core', hread', hcore', hsame'⟩ := hkept (hfits _ _ hmade hwritten)
  cases hread.symm.trans hread'
  cases hcore.symm.trans hcore'
  intro l hl
  have hbootstrap := hsame'.bootstrap.symm.trans hsame.bootstrap
  rw [keptWitness, hl] at hbootstrap
  obtain ⟨hkeys, hattributes⟩ := kept_eq_iff.mp (Option.some.inj hbootstrap)
  exact ⟨hcodes l hl, fun bootstrap hmem => withAttributes_eq_iff.mp (hattributes bootstrap hmem),
    hkeys⟩

theorem keptWitness_eq (h : ∀ l, witness.bootstrap = some l → Writable l) :
    keptWitness witness = witness := by
  obtain ⟨redeemers, signatures, scripts, bootstrap, datums⟩ := witness
  cases bootstrap with
  | none => rfl
  | some bootstraps =>
    obtain ⟨-, hattributes, hkeys⟩ := h bootstraps rfl
    have hkept := kept_eq_iff.mpr ⟨hkeys, fun bootstrap hmem =>
      withAttributes_eq_iff.mpr (hattributes bootstrap hmem)⟩
    simp only [keptWitness, Option.map_some, hkept]

/-- A witness comes back from its encoding exactly if its bootstrap witnesses
have chain codes and attributes and verification keys of their own. -/
theorem transactionWitnessSet_comes_back_iff (inConwayEra strict : Bool) {witness : Witness}
    (hvalid : ValidWitness witness)
    (hfits : (transactionWitnessSetCodec inConwayEra strict).Fits witness) :
    ComesBack inConwayEra strict witness ↔ ∀ l, witness.bootstrap = some l → Writable l := by
  constructor
  · exact ComesBack.writable hvalid hfits
  · intro hwritable
    obtain ⟨object, cbor, entries, hmade, hwritten, hcbor, hkept⟩ :=
      keptWitness_comes_back inConwayEra strict hvalid fun l hl => (hwritable l hl).chainCodes
    obtain ⟨decoded, core, hread, hcore, hsame⟩ := hkept (hfits _ _ hmade hwritten)
    rw [keptWitness_eq hwritable] at hsame
    exact ⟨object, cbor, entries, decoded, core, hmade, hwritten, hcbor, hread, hcore, hsame⟩

def byronWitness (attributes : List UInt8) : Cardano.BootstrapWitness where
  signature := List.replicate 64 2
  chainCode := some (List.replicate 32 3)
  addressAttributes := some attributes
  key := List.replicate 32 1

def byronWitnesses (attributes : List (List UInt8)) : Witness where
  bootstrap := some (attributes.map byronWitness)

theorem fitsBootstrap_byron {attributes : List UInt8} (h : attributes.length < 2 ^ 64) :
    FitsBootstrap (byronWitness attributes) := by
  refine ⟨?_, ?_, ?_⟩
  · rw [byronWitness, List.length_replicate]
    decide
  · rw [byronWitness, List.length_replicate]
    decide
  · intro attributes' hsome
    cases hsome
    exact h

theorem validWitness_byron {attributes : List (List UInt8)} (hsome : attributes ≠ [])
    (hcount : attributes.length < 2 ^ 64)
    (hfits : ∀ encoded ∈ attributes, encoded.length < 2 ^ 64) :
    ValidWitness (byronWitnesses attributes) := by
  refine ⟨⟨Nat.two_pow_pos 64, fun _ hmem => (List.not_mem_nil hmem).elim⟩, ?_, nofun, nofun, nofun⟩
  intro l hl
  cases hl
  refine ⟨List.map_eq_nil_iff.not.mpr hsome, by rwa [List.length_map], ?_⟩
  intro bootstrap hmem
  obtain ⟨encoded, hencoded, rfl⟩ := List.mem_map.mp hmem
  exact fitsBootstrap_byron (hfits encoded hencoded)

def spendingRedeemer : CoreRedeemer where
  purpose := .spend
  index := 0
  data := .integer 7
  memory := 1400
  steps := 500000

/-- A transaction that spends from a Byron address, with a native script and with a Plutus
script. -/
def spendingWitness : Witness where
  redeemers := some [spendingRedeemer]
  signatures := JsMap.ofList [(List.replicate 32 4, List.replicate 64 5)]
  scripts := some [.native (.requireTimeAfter 9), .plutus ⟨[0x4e, 0x4d, 0x01], .v2⟩]
  bootstrap := some [byronWitness [0xa0]]
  datums := some [.integer 7]

theorem integer_roundTrips (value : ℤ) (h : (CoreData.integer value).Kept) :
    plutusDataCodec.RoundTrips SameData (.integer value) := by
  have hformed : (CoreData.integer value).WellFormed := by
    rw [CoreData.WellFormed]
    trivial
  obtain ⟨data, cbor, hmade, hcbor, hitem, hread⟩ := datum_roundTrips hformed
  refine ⟨data, cbor, hmade, hcbor, hitem, fun hlength => ?_⟩
  obtain ⟨decoded, core, hdecoded, hcore, hback⟩ := hread hlength
  exact ⟨decoded, core, hdecoded, hcore, hback.mpr h⟩

theorem validWitness_spending : ValidWitness spendingWitness := by
  have hseven : plutusDataCodec.RoundTrips SameData (.integer 7) := by
    apply integer_roundTrips
    rw [CoreData.Kept]
    norm_num
  refine ⟨⟨by decide, by decide⟩, ?_, ?_, ?_, ?_⟩
  · rintro _ ⟨⟩
    exact ⟨List.cons_ne_nil _ _, by decide,
      List.forall_mem_singleton.mpr (fitsBootstrap_byron (by decide))⟩
  · rintro _ ⟨⟩
    exact ⟨List.cons_ne_nil _ _, by decide, List.forall_mem_singleton.mpr hseven⟩
  · rintro _ ⟨⟩
    have hnative : (Cardano.NativeScript.requireTimeAfter 9).Valid := by
      rw [Cardano.NativeScript.Valid, SafeInteger]
      decide
    refine ⟨List.cons_ne_nil _ _, by decide, List.forall_mem_cons.mpr ⟨⟨by decide, ?_⟩,
      List.forall_mem_singleton.mpr ⟨by decide, ?_⟩⟩⟩
    · exact nativeScript_roundTrips hnative
    · exact @plutusScript_roundTrips ⟨[0x4e, 0x4d, 0x01], .v2⟩ (by decide)
  · rintro _ ⟨⟩
    refine ⟨List.cons_ne_nil _ _, List.forall_mem_singleton.mpr ?_, by decide, by decide⟩
    exact ⟨⟨by decide, by decide⟩, ⟨by decide, by decide⟩, ⟨by decide, by decide⟩, hseven⟩

theorem transactionWitnessSet_comes_back_byron : ComesBack true true spendingWitness := by
  have hfits : (transactionWitnessSetCodec true true).Fits spendingWitness :=
    @Codec.fits_of_encoded _ _ (transactionWitnessSetCodec true true) _ 288 (by decide +kernel)
      (by decide)
  refine (transactionWitnessSet_comes_back_iff true true validWitness_spending hfits).mpr ?_
  rintro _ ⟨⟩
  refine ⟨List.forall_mem_singleton.mpr ⟨_, rfl, rfl⟩, List.forall_mem_singleton.mpr ⟨_, rfl, ?_⟩,
    by decide⟩
  decide

/-- One key that signs for an address of the main network and for one of a test
network, whose magic number stands in the attributes. The second witness is lost. -/
theorem transactionWitnessSet_loses_byron :
    ValidWitness (byronWitnesses [[0xa0], [0xa1, 0x02, 0x45, 0x1a, 0x41, 0x70, 0xcb, 0x17]]) ∧
      ([[0xa0], [0xa1, 0x02, 0x45, 0x1a, 0x41, 0x70, 0xcb, 0x17]].map byronWitness).Nodup ∧
      ¬ ComesBack true true
        (byronWitnesses [[0xa0], [0xa1, 0x02, 0x45, 0x1a, 0x41, 0x70, 0xcb, 0x17]]) := by
  have hvalid : ValidWitness
      (byronWitnesses [[0xa0], [0xa1, 0x02, 0x45, 0x1a, 0x41, 0x70, 0xcb, 0x17]]) :=
    validWitness_byron (by decide) (by decide) (by decide)
  refine ⟨hvalid, by decide, fun hcomes => ?_⟩
  have hwritable := hcomes.writable hvalid
    (@Codec.fits_of_length _ _ (transactionWitnessSetCodec true true) _ _ 143 rfl
      (by decide +kernel) (by decide)) _ rfl
  have hkeys := hwritable.keys
  rw [List.map_map] at hkeys
  exact absurd hkeys (by decide)

end CardanoSdk.Serialization.WitnessCodec
