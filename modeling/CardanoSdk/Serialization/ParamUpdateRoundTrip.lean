import CardanoSdk.Serialization.ParamParts

/-!
A protocol parameter update through `toCbor` and `fromCbor`. The parameters that are
counted, those that are written and the keys that are known agree.
-/

namespace CardanoSdk.Serialization

open Lib Cbor Plutus Cardano

def ParamKind.Valid : (kind : ParamKind) → kind.Value → Prop
  | .coin, value => FitsHead value
  | .number, value => IsNumber value
  | .interval, value => UnitInterval.Valid value
  | .entropy, value => List.length value < 2 ^ 64
  | .protocolVersion, value => ProtocolVersion.Valid value
  | .costModels, value => Costmdls.Valid value
  | .prices, value => ExUnitPrices.Valid value
  | .exUnits, value => ExUnits.Valid value
  | .poolThresholds, value => PoolVotingThresholds.Valid value
  | .drepThresholds, value => DrepVotingThresholds.Valid value

/-- The same value, cached bytes and the order of cost models apart. -/
def ParamKind.Same : (kind : ParamKind) → kind.Value → kind.Value → Prop
  | .coin => Eq
  | .number => Eq
  | .interval => UnitInterval.Same
  | .entropy => Eq
  | .protocolVersion => ProtocolVersion.Same
  | .costModels => Costmdls.Same
  | .prices => ExUnitPrices.Same
  | .exUnits => ExUnits.Same
  | .poolThresholds => PoolVotingThresholds.Same
  | .drepThresholds => DrepVotingThresholds.Same

theorem kept_param {kind : ParamKind} {value : kind.Value} (hvalid : kind.Valid value) :
    Kept kind.write kind.read kind.Same value := by
  cases kind with
  | coin =>
    obtain ⟨hlower, hupper⟩ := hvalid
    exact ⟨_, value, encodes_writing (writes_int hlower hupper), dataItem_encodeInt hlower hupper,
      fun _ => readsItem_int hlower hupper, rfl⟩
  | number =>
    obtain ⟨hlower, hupper⟩ := hvalid.fits
    refine ⟨_, value, encodes_writing (writes_int hlower hupper),
      dataItem_encodeInt hlower hupper, fun _ => ?_, rfl⟩
    refine (readsItem_int hlower hupper).map fun reader => ?_
    rw [hvalid.exact]
    rfl
  | interval => exact kept_interval hvalid
  | entropy => exact kept_entropy hvalid
  | protocolVersion => exact kept_protocolVersion hvalid
  | costModels => exact kept_costModels hvalid
  | prices => exact kept_prices hvalid
  | exUnits => exact kept_exUnits hvalid
  | poolThresholds => exact kept_poolThresholds hvalid
  | drepThresholds => exact kept_drepThresholds hvalid

def InWord32 (least value : ℤ) : Prop := least ≤ value ∧ value ≤ maxWord32

def UnitInterval.IsPositive (interval : UnitInterval) : Prop :=
  1 ≤ interval.numerator ∧ 1 ≤ interval.denominator

variable {argName : String}

theorem assertWord32_ok {least value : ℤ} (h : InWord32 least value) :
    assertWord32 least argName value = .ok () :=
  if_neg (by have := h.1; have := h.2; omega)

theorem assertPositiveInterval_ok {interval : UnitInterval} (h : interval.IsPositive) :
    assertPositiveInterval argName interval = .ok () :=
  if_neg (by have := h.1; have := h.2; omega)

namespace ProtocolParam

/-- The bounds of the parameters that are words or must be positive. -/
def InBounds : (param : ProtocolParam) → param.Value → Prop
  | maxRefScriptSizePerBlock, value => InWord32 0 value
  | maxRefScriptSizePerTx, value => InWord32 0 value
  | refScriptCostStride, value => InWord32 1 value
  | refScriptCostMultiplier, value => UnitInterval.IsPositive value
  | _, _ => True

structure InRange (param : ProtocolParam) (value : param.Value) : Prop where
  valid : param.kind.Valid value
  bounds : param.InBounds value

theorem assertValue_ok {param : ProtocolParam} {value : param.Value} (h : param.InBounds value) :
    param.assertValue value = .ok () := by
  cases param with
  | maxRefScriptSizePerBlock => exact assertWord32_ok h
  | maxRefScriptSizePerTx => exact assertWord32_ok h
  | refScriptCostStride => exact assertWord32_ok h
  | refScriptCostMultiplier => exact assertPositiveInterval_ok h
  | _ => rfl

theorem counted_eq_written : counted = written := rfl

theorem nodup_written : written.Nodup := by decide

theorem mem_written (param : ProtocolParam) : param ∈ written := by
  cases param <;> decide

theorem ascending_written : (written.map key).Pairwise (· < ·) := by decide

theorem keyOf : KeyOf ProtocolParamUpdate.fields key where
  range param := by cases param <;> decide
  known param := by cases param <;> rfl

end ProtocolParam

namespace ProtocolParamUpdate

variable {update : ProtocolParamUpdate}

theorem writeParam_eq {param : ProtocolParam}
    (hbounds : ∀ value ∈ update.params param, param.InBounds value) :
    update.writeParam param = writeField param.key (update.params param) param.kind.write := by
  unfold writeParam
  cases hvalue : update.params param with
  | none => rfl
  | some value =>
    dsimp only
    rw [ProtocolParam.assertValue_ok (hbounds value hvalue)]
    rfl

/-- The parameters that are set in an update that was made with values in range
are written as a map of that size with ascending keys. If that fits in a typed
array, the decoder sets the same parameters to the same values. -/
theorem protocolParamUpdate_round_trips (horiginal : update.originalBytes = none)
    (hrange : ∀ param, ∀ value ∈ update.params param, param.InRange value) :
    ∃ entries : List KeyedEntry,
      update.toCbor = .ok (encodeHead .map update.getMapSize ++ (entryItems entries).flatten) ∧
      update.getMapSize = entries.length ∧
      (entries.map KeyedEntry.key).Pairwise (· < ·) ∧
      ((encodeHead .map update.getMapSize ++ (entryItems entries).flatten).length < 2 ^ 53 →
        ∃ decoded, fromCbor (encodeHead .map update.getMapSize ++
            (entryItems entries).flatten) = .ok decoded ∧
          ∀ param, Option.Rel param.kind.Same (decoded.params param) (update.params param)) := by
  have hparam (param : ProtocolParam) : ∃ encoded reread,
      Rewritten param.kind.write param.kind.read (update.params param) encoded reread ∧
        Option.Rel param.kind.Same reread (update.params param) := by
    cases hvalue : update.params param with
    | none => exact ⟨none, none, Rewritten.none, Option.Rel.none⟩
    | some value =>
      obtain ⟨bytes, reread, hencodes, hitem, hreads, hsame⟩ :=
        kept_param (hrange param value hvalue).valid
      exact ⟨some bytes, some reread, Rewritten.some hencodes hitem hreads, Option.Rel.some hsame⟩
  choose encoded reread hrewritten hsame using hparam
  obtain ⟨entries, cbor, hcbor, hkeys, hencodes, -, -, hreads⟩ :=
    @exists_keyedMap _ _ _ (fun _ s => pure s) _ _ _ lawful_fields.puts ProtocolParam.keyOf _
      hrewritten _ ProtocolParam.nodup_written (by decide)
  have hcount := @length_of_keys _ fields ProtocolParam.key update.params _ _ hkeys
  have hsize : update.getMapSize = entries.length := by
    rw [hcount, getMapSize, ProtocolParam.counted_eq_written]
    rfl
  refine ⟨entries, ?_, hsize, ?_, fun hlength => ?_⟩
  · rw [toCbor, horiginal, cachedOr_none, hsize, ← hcbor]
    rw [← hcount] at hencodes
    have hwrite : update.writeParam = fun param =>
        writeField param.key (update.params param) param.kind.write :=
      funext fun param => writeParam_eq fun value hvalue => (hrange param value hvalue).bounds
    rw [hwrite]
    exact encodeAsHex_ok hencodes
  · rw [hkeys]
    exact ProtocolParam.ascending_written.sublist (List.filter_sublist.map _)
  · rw [hsize, ← hcbor] at hlength ⊢
    obtain ⟨s, hread, hget⟩ := hreads hlength {} fun _ _ => rfl
    refine ⟨{ s with originalBytes := some cbor }, ?_, fun param => ?_⟩
    · refine decodeWith_ok hlength fun reader hfresh => ?_
      exact Succeeds.bind (hread reader [] hfresh.bytes hfresh.accepts) Succeeds.pure
    · have hparam : s.params param = reread param :=
        (hget param).trans (if_pos (ProtocolParam.mem_written param))
      change Option.Rel _ (s.params param) _
      rw [hparam]
      exact hsame param

def threeParams : ProtocolParamUpdate where
  params
    | .minFeeA => some (44 : ℤ)
    | .poolPledgeInfluence => some (⟨3, 10, none⟩ : UnitInterval)
    | .refScriptCostStride => some (25600 : ℤ)
    | _ => none

theorem protocolParamUpdate_round_trips_three :
    ∃ entries : List KeyedEntry,
      threeParams.toCbor =
        .ok (encodeHead .map threeParams.getMapSize ++ (entryItems entries).flatten) ∧
      threeParams.getMapSize = entries.length ∧
      (entries.map KeyedEntry.key).Pairwise (· < ·) ∧
      ((encodeHead .map threeParams.getMapSize ++ (entryItems entries).flatten).length < 2 ^ 53 →
        ∃ decoded, fromCbor (encodeHead .map threeParams.getMapSize ++
            (entryItems entries).flatten) = .ok decoded ∧
          ∀ param, Option.Rel param.kind.Same (decoded.params param) (threeParams.params param)) := by
  apply protocolParamUpdate_round_trips rfl
  intro param value hvalue
  cases param with
  | minFeeA =>
    cases hvalue
    exact ⟨⟨by norm_num, by norm_num⟩, trivial⟩
  | poolPledgeInfluence =>
    cases hvalue
    exact ⟨⟨⟨by norm_num, by norm_num⟩, ⟨by norm_num, by norm_num⟩, rfl⟩, trivial⟩
  | refScriptCostStride =>
    cases hvalue
    exact ⟨⟨⟨by norm_num, by norm_num⟩, toNumber_of_natAbs_lt (by norm_num)⟩,
      by norm_num, by norm_num [maxWord32]⟩
  | _ => cases hvalue

end ProtocolParamUpdate

end CardanoSdk.Serialization
