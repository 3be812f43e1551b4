import CardanoSdk.Serialization.TransactionOutput

/-!
Encoders that do the same but for one part: what they append differs by the length of the
parts.
-/

namespace CardanoSdk.Serialization

open Lib Cbor Plutus Cardano

section Resizes

variable {ε α β : Type} {d e : ℤ}

def appended (writer writer' : CborWriter) : ℤ := writer'.buffer.length - writer.buffer.length

/-- Where the first succeeds the second has the same result, and appends `d` bytes more. -/
def Resizes (d : ℤ) (action action' : EStateM ε CborWriter α) : Prop :=
  ∀ writer writer' value written, action writer = .ok value written →
    ∃ written', action' writer' = .ok value written' ∧
      appended writer' written' = appended writer written + d

/-- Wherever it starts, the action succeeds or not, and appends as many bytes. -/
def Steady (action : EStateM ε CborWriter α) : Prop := Resizes 0 action action

variable {first : EStateM ε CborWriter α} {next : α → EStateM ε CborWriter β}

theorem Resizes.bind {first' : EStateM ε CborWriter α} {next' : α → EStateM ε CborWriter β}
    (hfirst : Resizes d first first') (hnext : ∀ a, Resizes e (next a) (next' a)) :
    Resizes (d + e) (first >>= next) (first' >>= next') := by
  intro writer writer' value written hrun
  obtain ⟨a, between, hleft, hright⟩ := run_bind_eq_ok hrun
  obtain ⟨between', hleft', hsize⟩ := hfirst writer writer' a between hleft
  obtain ⟨written', hright', hsize'⟩ := hnext a between between' value written hright
  refine ⟨written', by rw [run_bind_ok hleft', hright'], ?_⟩
  unfold appended at hsize hsize' ⊢
  omega

theorem Steady.bind {first : EStateM ε CborWriter α} {next : α → EStateM ε CborWriter β}
    (hfirst : Steady first) (hnext : ∀ a, Steady (next a)) : Steady (first >>= next) :=
  Resizes.bind hfirst hnext

theorem Resizes.before {first' : EStateM ε CborWriter α} (hfirst : Resizes d first first')
    (hnext : ∀ a, Steady (next a)) : Resizes d (first >>= next) (first' >>= next) := by
  have h := hfirst.bind hnext
  rwa [add_zero] at h

theorem Steady.after {next' : α → EStateM ε CborWriter β} (hfirst : Steady first)
    (hnext : ∀ a, Resizes d (next a) (next' a)) : Resizes d (first >>= next) (first >>= next') := by
  have h := Resizes.bind hfirst hnext
  rwa [zero_add] at h

theorem Steady.pure (a : α) : Steady (pure a : EStateM ε CborWriter α) := by
  intro writer writer' value written hrun
  cases hrun
  refine ⟨writer', rfl, ?_⟩
  unfold appended
  omega

theorem Steady.throw (exception : ε) : Steady (throw exception : EStateM ε CborWriter α) := by
  intro writer writer' value written hrun
  cases hrun

theorem Steady.forM {items : List α} {write : α → EStateM ε CborWriter Unit}
    (h : ∀ item, Steady (write item)) : Steady (items.forM write) := by
  induction items with
  | nil => exact Steady.pure ()
  | cons item items ih => exact (h item).bind fun _ => ih

end Resizes

section Calls

variable {action : WriteM Unit}

variable {condition : Prop} {action' : WriteM Unit} {bytes : List UInt8}

theorem resizes_of_writesWhen {condition' : Prop} {bytes' : List UInt8}
    (h : WritesWhen condition action bytes) (h' : WritesWhen condition' action' bytes')
    (hcondition : condition → condition') :
    Resizes (bytes'.length - bytes.length) action action' := by
  intro writer writer' _ written hrun
  by_cases hholds : condition
  · rw [h.writes hholds] at hrun
    cases hrun
    refine ⟨writer'.append bytes', h'.writes (hcondition hholds) writer', ?_⟩
    simp only [appended, CborWriter.append, List.length_append, Nat.cast_add]
    omega
  · obtain ⟨thrown, hthrow⟩ := h.throws hholds writer
    rw [hthrow] at hrun
    cases hrun

theorem steady_of_writesWhen (h : WritesWhen condition action bytes) : Steady action := by
  have hself := resizes_of_writesWhen h h id
  rwa [sub_self] at hself

theorem steady_typeValue (type : CborMajorType) (value : ℕ) : Steady (writeTypeValue type value) :=
  steady_of_writesWhen (writesWhen_typeValue type value)

theorem steady_startArray (length : ℕ) : Steady (writeStartArray (some length)) :=
  steady_typeValue .array length

theorem steady_startMap (length : ℕ) : Steady (writeStartMap (some length)) :=
  steady_typeValue .map length

theorem steady_tag (tag : ℕ) : Steady (writeTag tag) := steady_typeValue .tag tag

theorem steady_int (value : ℤ) : Steady (writeInt value) :=
  steady_of_writesWhen (writesWhen_int value)

theorem steady_byteString (value : List UInt8) : Steady (writeByteString value) :=
  steady_of_writesWhen (writesWhen_byteString value)

theorem steady_writeMultiAsset (multiassets : MultiAsset) : Steady (writeMultiAsset multiassets) := by
  have hassets (assets : JsMap AssetName ℤ) : Steady (writeAssets assets) :=
    (steady_startMap _).bind fun _ =>
      Steady.forM fun asset => (steady_byteString asset.1).bind fun _ => steady_int asset.2
  exact (steady_startMap _).bind fun _ =>
    Steady.forM fun policy => (steady_byteString policy.1).bind fun _ => hassets policy.2

theorem resizes_writing {d : ℤ} (h : Resizes d action action') :
    Resizes d (writing action) (writing action') := by
  intro writer writer' value written hrun
  unfold writing at hrun ⊢
  cases haction : action writer with
  | error exception thrown =>
    rw [haction] at hrun
    cases hrun
  | ok result appendedTo =>
    rw [haction] at hrun
    cases hrun
    obtain ⟨written', hrun', hsize⟩ := h writer writer' _ written haction
    exact ⟨written', by rw [hrun'], hsize⟩

theorem steady_writing (h : Steady action) : Steady (writing action) :=
  resizes_writing h

theorem steady_encoding {α : Type} (result : Except EncodeException α) :
    Steady (encoding result) := by
  intro writer writer' value written hrun
  cases result with
  | error exception => cases hrun
  | ok encoded =>
    cases hrun
    refine ⟨writer', rfl, ?_⟩
    unfold appended
    omega

end Calls

/-- Where the first is encoded so is the second, in `d` bytes more. -/
def ResizesTo (d : ℤ) (result result' : Except EncodeException (List UInt8)) : Prop :=
  ∀ cbor, result = .ok cbor →
    ∃ cbor', result' = .ok cbor' ∧ (cbor'.length : ℤ) = cbor.length + d

variable {d : ℤ}

theorem resizesTo_encodeAsHex {calls calls' : EncodeM Unit} (h : Resizes d calls calls') :
    ResizesTo d (encodeAsHex calls) (encodeAsHex calls') := by
  intro cbor hcbor
  unfold encodeAsHex at hcbor ⊢
  cases hcalls : calls {} with
  | error exception writer =>
    rw [hcalls] at hcbor
    cases hcbor
  | ok value writer =>
    rw [hcalls] at hcbor
    cases hcbor
    obtain ⟨writer', hcalls', hsize⟩ := h {} {} value writer hcalls
    refine ⟨writer'.buffer, by rw [hcalls'], ?_⟩
    simp only [appended, List.length_nil, Nat.cast_zero, sub_zero] at hsize
    exact hsize

theorem resizes_encoded {result result' : Except EncodeException (List UInt8)}
    (h : ResizesTo d result result') :
    Resizes d (encoding result >>= fun cbor => writing (writeEncodedValue cbor))
      (encoding result' >>= fun cbor => writing (writeEncodedValue cbor)) := by
  intro writer writer' value written hrun
  cases result with
  | error exception =>
    rw [show (encoding (.error exception) : EncodeM (List UInt8)) = throw exception from rfl]
      at hrun
    cases hrun
  | ok cbor =>
    obtain ⟨cbor', rfl, hsize⟩ := h cbor rfl
    cases hrun
    refine ⟨writer'.append cbor', rfl, ?_⟩
    simp only [appended, CborWriter.append, List.length_append, Nat.cast_add]
    omega

def coinResize (coin coin' : ℤ) : ℤ := (encodeInt coin').length - (encodeInt coin).length

section Coin

variable {CoreScript Script : Type} {text : TextEncodings} {script : Codec CoreScript Script}
  {coin' : ℤ}

theorem resizes_coin (coin : ℤ) (hcoin' : -(2 ^ 64) ≤ coin' ∧ coin' < 2 ^ 64) :
    Resizes (coinResize coin coin') (writing (writeInt coin)) (writing (writeInt coin')) :=
  resizes_writing (resizes_of_writesWhen (writesWhen_int coin) (writesWhen_int coin')
    fun _ => hcoin')

variable {value : Value} {output : TransactionOutput Script}

theorem resizesTo_value (horiginal : value.originalBytes = none)
    (hcoin' : -(2 ^ 64) ≤ coin' ∧ coin' < 2 ^ 64) :
    ResizesTo (coinResize value.coin coin') value.toCbor { value with coin := coin' }.toCbor := by
  have hcoin := resizes_coin value.coin hcoin'
  unfold Value.toCbor
  rw [horiginal]
  dsimp only [truthy]
  cases nonEmpty value.multiasset with
  | none => exact resizesTo_encodeAsHex hcoin
  | some multiasset =>
    refine resizesTo_encodeAsHex ?_
    refine (steady_writing (steady_startArray _)).after fun _ => ?_
    refine hcoin.before fun _ => ?_
    exact (steady_encoding _).bind fun multiassets =>
      steady_writing (steady_writeMultiAsset multiassets)

theorem steady_writeAddress (address : AddressProps) : Steady (writeAddress text address) :=
  (steady_encoding _).bind fun bytes => steady_writing (steady_byteString bytes)

theorem steady_writeDataHash (datum : Datum) : Steady (writeDataHash datum) := by
  cases datum with
  | dataHash hash => exact steady_writing (steady_byteString hash)
  | inlineData data => exact Steady.throw _

theorem steady_writeDatum (datum : Datum) : Steady (writeDatum datum) := by
  unfold writeDatum
  refine (steady_writing (steady_startArray _)).bind fun _ => ?_
  refine (steady_writing (steady_int _)).bind fun _ => ?_
  cases datum with
  | dataHash hash => exact steady_writing (steady_byteString hash)
  | inlineData data =>
    refine (steady_writing (steady_tag _)).bind fun _ => ?_
    exact (steady_encoding _).bind fun cbor => steady_writing (steady_byteString cbor)

theorem steady_writeScriptRef (scriptRef : Script) : Steady (writeScriptRef script scriptRef) := by
  unfold writeScriptRef
  refine (steady_writing (steady_tag _)).bind fun _ => ?_
  exact (steady_encoding _).bind fun cbor => steady_writing (steady_byteString cbor)

theorem steady_writeField {α : Type} (key : ℤ) (value : Option α) {write : α → EncodeM Unit}
    (hwrite : ∀ value, Steady (write value)) : Steady (writeField key value write) := by
  cases value with
  | none => exact Steady.pure ()
  | some value => exact (steady_writing (steady_int key)).bind fun _ => hwrite value

def TransactionOutput.withCoin (output : TransactionOutput Script) (coin' : ℤ) :
    TransactionOutput Script :=
  { output with amount := { output.amount with coin := coin' } }

theorem resizesTo_output (horiginal : output.originalBytes = none)
    (hamount : output.amount.originalBytes = none) (hcoin' : -(2 ^ 64) ≤ coin' ∧ coin' < 2 ^ 64) :
    ResizesTo (coinResize output.amount.coin coin') (output.toCbor text script)
      ((output.withCoin coin').toCbor text script) := by
  have hvalue := resizes_encoded (resizesTo_value hamount hcoin')
  unfold TransactionOutput.toCbor
  rw [show (output.withCoin coin').originalBytes = output.originalBytes from rfl, horiginal]
  refine resizesTo_encodeAsHex ?_
  by_cases hcompact : output.isCompact
  · rw [if_pos hcompact, if_pos (show (output.withCoin coin').isCompact from hcompact)]
    refine (steady_writing (steady_startArray _)).after fun _ => ?_
    refine (steady_writeAddress output.address).after fun _ => ?_
    refine Resizes.before hvalue fun _ => ?_
    obtain ⟨-, -, datum, -, -⟩ := output
    cases datum with
    | none => exact Steady.pure ()
    | some datum => exact steady_writeDataHash datum
  · rw [if_neg hcompact, if_neg (show ¬ (output.withCoin coin').isCompact from hcompact)]
    refine (steady_writing (steady_startMap _)).after fun _ => ?_
    refine (steady_writeField 0 _ steady_writeAddress).after fun _ => ?_
    refine Resizes.before ((steady_writing (steady_int 1)).after fun _ => hvalue) fun _ => ?_
    exact (steady_writeField 2 _ steady_writeDatum).bind fun _ =>
      steady_writeField 3 _ steady_writeScriptRef

/-- The action has a run that succeeds. -/
def Succeeds {ε α : Type} (action : EStateM ε CborWriter α) : Prop :=
  ∃ writer value written, action writer = .ok value written

section Succeeds

variable {ε α β : Type} {first : EStateM ε CborWriter α} {next : α → EStateM ε CborWriter β}

theorem succeeds_first (h : Succeeds (first >>= next)) : Succeeds first := by
  obtain ⟨writer, _, _, hrun⟩ := h
  obtain ⟨value, written, hfirst, _⟩ := run_bind_eq_ok hrun
  exact ⟨writer, value, written, hfirst⟩

theorem succeeds_next (h : Succeeds (first >>= next)) : ∃ value, Succeeds (next value) := by
  obtain ⟨_, result, written, hrun⟩ := h
  obtain ⟨value, between, _, hnext⟩ := run_bind_eq_ok hrun
  exact ⟨value, between, result, written, hnext⟩

end Succeeds

variable {cbor : List UInt8}

theorem succeeds_of_encodeAsHex {calls : EncodeM Unit} (h : encodeAsHex calls = .ok cbor) :
    Succeeds calls := by
  unfold encodeAsHex at h
  cases hcalls : calls {} with
  | error exception writer =>
    rw [hcalls] at h
    cases h
  | ok value writer => exact ⟨{}, value, writer, hcalls⟩

theorem coin_of_succeeds {coin : ℤ} (h : Succeeds (writing (writeInt coin))) :
    -(2 ^ 64) ≤ coin ∧ coin < 2 ^ 64 := by
  obtain ⟨writer, value, written, hrun⟩ := h
  by_contra hrange
  obtain ⟨thrown, hthrow⟩ := (writesWhen_int coin).throws hrange writer
  rw [writing, hthrow] at hrun
  cases hrun

theorem coin_of_value (horiginal : value.originalBytes = none) (h : value.toCbor = .ok cbor) :
    -(2 ^ 64) ≤ value.coin ∧ value.coin < 2 ^ 64 := by
  unfold Value.toCbor at h
  rw [horiginal] at h
  dsimp only [truthy] at h
  cases hpresent : nonEmpty value.multiasset with
  | none =>
    rw [hpresent] at h
    exact coin_of_succeeds (succeeds_of_encodeAsHex h)
  | some multiasset =>
    rw [hpresent] at h
    obtain ⟨_, hcoin⟩ := succeeds_next (succeeds_of_encodeAsHex h)
    exact coin_of_succeeds (succeeds_first hcoin)

theorem coin_of_amount {amount : Value} (horiginal : amount.originalBytes = none)
    (h : Succeeds (writeAmount amount)) : -(2 ^ 64) ≤ amount.coin ∧ amount.coin < 2 ^ 64 := by
  obtain ⟨writer, value, written, hencode⟩ := succeeds_first h
  cases hcbor : amount.toCbor with
  | error exception =>
    rw [hcbor] at hencode
    cases hencode
  | ok cbor => exact coin_of_value horiginal hcbor

theorem coin_of_output (horiginal : output.originalBytes = none)
    (hamount : output.amount.originalBytes = none) (h : output.toCbor text script = .ok cbor) :
    -(2 ^ 64) ≤ output.amount.coin ∧ output.amount.coin < 2 ^ 64 := by
  unfold TransactionOutput.toCbor at h
  rw [horiginal] at h
  have hcalls := succeeds_of_encodeAsHex h
  apply coin_of_amount hamount
  split at hcalls
  · obtain ⟨_, haddress⟩ := succeeds_next hcalls
    obtain ⟨_, hrest⟩ := succeeds_next haddress
    exact succeeds_first hrest
  · obtain ⟨_, haddress⟩ := succeeds_next hcalls
    obtain ⟨_, hrest⟩ := succeeds_next haddress
    obtain ⟨_, hfield⟩ := succeeds_next (succeeds_first hrest)
    exact hfield

end Coin

end CardanoSdk.Serialization
