import CardanoSdk.Plutus.PlutusData

/-!
Rules for decoders as a whole: that a decoder returns a value, that one returns
what another returns, and what holds of whatever a decoder returns.
-/

namespace CardanoSdk.Plutus

open Lib Cbor

variable {reader reader' : CborReader}

section Running

variable {α : Type} {value : α}

theorem reading_ok {action : ReadM α} (h : action reader = .ok value reader') :
    reading action reader = .ok value reader' := by
  rw [reading, h]

theorem decoding_ok {result : Except DecodeException α} (h : result = .ok value) :
    decoding result reader = .ok value reader := by
  subst h
  rfl

theorem reading_eq_ok {action : ReadM α} (h : reading action reader = .ok value reader') :
    action reader = .ok value reader' := by
  unfold reading at h
  cases hrun : action reader with
  | ok value' moved =>
    rw [hrun] at h
    cases h
    rfl
  | error exception moved =>
    rw [hrun] at h
    cases h

theorem decoding_eq_ok {result : Except DecodeException α}
    (h : decoding result reader = .ok value reader') : result = .ok value ∧ reader' = reader := by
  unfold decoding at h
  cases result with
  | ok value' =>
    cases h
    exact ⟨rfl, rfl⟩
  | error exception => cases h

/-- The reader is new and has these bytes to read. -/
structure FreshReader (reader : CborReader) (cbor : List UInt8) : Prop where
  bytes : reader.getRemainingBytes = cbor ++ []
  accepts : ∀ first, reader.currentFrame.Accepts first
  cachedState : reader.cachedState = .undefined

/-- The calls return the value, wherever they leave the reader. -/
def Succeeds (calls : DecodeM α) (reader : CborReader) (value : α) : Prop :=
  ∃ reader', calls reader = .ok value reader'

theorem Succeeds.pure : Succeeds (pure value) reader value := ⟨reader, rfl⟩

variable {β : Type} {cbor bytes : List UInt8} {calls : WriteM Unit}

theorem Succeeds.bind {first : DecodeM β} {next : β → DecodeM α} {b : β}
    (hfirst : first reader = .ok b reader') (hnext : Succeeds (next b) reader' value) :
    Succeeds (first >>= next) reader value := by
  obtain ⟨final, hfinal⟩ := hnext
  exact ⟨final, by rw [run_bind_ok hfirst, hfinal]⟩

theorem Succeeds.read {β : Type} {action : ReadM β} {next : β → DecodeM α} {b : β}
    (hread : action reader = .ok b reader') (hnext : Succeeds (next b) reader' value) :
    Succeeds (reading action >>= next) reader value :=
  Succeeds.bind (reading_ok hread) hnext

theorem Succeeds.decode {result : Except DecodeException β} {next : β → DecodeM α} {b : β}
    (hresult : result = .ok b) (hnext : Succeeds (next b) reader value) :
    Succeeds (decoding result >>= next) reader value :=
  Succeeds.bind (decoding_ok hresult) hnext

theorem decodeWith_ok {calls : DecodeM α} (hlength : cbor.length < 2 ^ 53)
    (h : ∀ reader, FreshReader reader cbor → Succeeds calls reader value) :
    decodeWith cbor calls = .ok value := by
  have hfresh : FreshReader (CborReader.new ⟨cbor, hlength⟩) cbor :=
    ⟨(List.append_nil cbor).symm, fun _ => ⟨rfl, rfl⟩, rfl⟩
  obtain ⟨reader', hcalls⟩ := h _ hfresh
  rw [decodeWith, dif_pos hlength, hcalls]

theorem encodeWith_ok (h : Writes calls bytes) : encodeWith calls = .ok bytes := by
  rw [encodeWith, h]
  rfl

theorem encodeWith_eq_ok {condition : Prop} (h : WritesWhen condition calls bytes)
    (hcbor : encodeWith calls = .ok cbor) : condition ∧ cbor = bytes := by
  by_cases hcondition : condition
  · rw [encodeWith_ok (h.writes hcondition)] at hcbor
    cases hcbor
    exact ⟨hcondition, rfl⟩
  · obtain ⟨writer', hthrow⟩ := h.throws hcondition {}
    rw [encodeWith, hthrow] at hcbor
    cases hcbor

end Running

/-- Where the first decoder returns, the second returns the same. -/
def Refines {α : Type} (calls calls' : DecodeM α) : Prop :=
  ∀ reader value reader', calls reader = .ok value reader' → calls' reader = .ok value reader'

section Refinement

variable {α β : Type}

theorem Refines.refl (calls : DecodeM α) : Refines calls calls := fun _ _ _ h => h

theorem Refines.bind {first first' : DecodeM β} {next next' : β → DecodeM α}
    (hfirst : Refines first first') (hnext : ∀ b, Refines (next b) (next' b)) :
    Refines (first >>= next) (first' >>= next') := by
  intro reader value reader' h
  obtain ⟨b, middle, hrun, hrest⟩ := run_bind_eq_ok h
  rw [run_bind_ok (hfirst _ _ _ hrun)]
  exact hnext b _ _ _ hrest

theorem Refines.read {action : DecodeM β} {next next' : β → DecodeM α}
    (hnext : ∀ b, Refines (next b) (next' b)) : Refines (action >>= next) (action >>= next') :=
  Refines.bind (Refines.refl action) hnext

theorem Refines.decoding {result result' : Except DecodeException β}
    (h : ∀ b, result = .ok b → result' = .ok b) :
    Refines (Plutus.decoding result) (Plutus.decoding result') := by
  intro reader b reader' hrun
  obtain ⟨hvalue, rfl⟩ := decoding_eq_ok hrun
  exact decoding_ok (h b hvalue)

theorem Refines.decode {result result' : Except DecodeException β} {next next' : β → DecodeM α}
    (hresult : ∀ b, result = .ok b → result' = .ok b) (hnext : ∀ b, Refines (next b) (next' b)) :
    Refines (Plutus.decoding result >>= next) (Plutus.decoding result' >>= next') :=
  Refines.bind (Refines.decoding hresult) hnext

theorem Refines.decodeWith {calls calls' : DecodeM α} (h : Refines calls calls')
    {cbor : List UInt8} {value : α} (hvalue : decodeWith cbor calls = .ok value) :
    Plutus.decodeWith cbor calls' = .ok value := by
  unfold Plutus.decodeWith at hvalue ⊢
  split at hvalue
  · rename_i hlength
    rw [dif_pos hlength]
    cases hrun : calls (CborReader.new ⟨cbor, hlength⟩) with
    | ok result reader' =>
      rw [hrun] at hvalue
      rw [h _ _ _ hrun]
      exact hvalue
    | error exception reader' =>
      rw [hrun] at hvalue
      cases hvalue
  · cases hvalue

end Refinement

def Returns {α : Type} (calls : DecodeM α) (P : α → Prop) : Prop :=
  ∀ reader value reader', calls reader = .ok value reader' → P value

section Returning

variable {α β : Type} {P : α → Prop}

theorem Returns.pure {value : α} (h : P value) : Returns (pure value) P := by
  intro reader value' reader' hrun
  cases hrun
  exact h

theorem Returns.throw {exception : DecodeException} : Returns (throw exception) P := by
  intro reader value' reader' hrun
  cases hrun

theorem Returns.bind {Q : β → Prop} {first : DecodeM β} {next : β → DecodeM α}
    (hfirst : Returns first Q) (hnext : ∀ b, Q b → Returns (next b) P) :
    Returns (first >>= next) P := by
  intro reader value reader' h
  obtain ⟨b, middle, hrun, hrest⟩ := run_bind_eq_ok h
  exact hnext b (hfirst _ _ _ hrun) _ _ _ hrest

theorem Returns.read {action : DecodeM β} {next : β → DecodeM α}
    (hnext : ∀ b, Returns (next b) P) : Returns (action >>= next) P :=
  Returns.bind (fun _ _ _ _ => trivial : Returns action fun _ => True) fun b _ => hnext b

theorem Returns.decode {result : Except DecodeException β} {next : β → DecodeM α}
    (hnext : ∀ b, result = .ok b → Returns (next b) P) :
    Returns (decoding result >>= next) P :=
  Returns.bind (fun _ _ _ h => (decoding_eq_ok h).1) hnext

theorem Returns.decodeWith {calls : DecodeM α} (h : Returns calls P) {cbor : List UInt8} {value : α}
    (hvalue : Plutus.decodeWith cbor calls = .ok value) : P value := by
  unfold Plutus.decodeWith at hvalue
  split at hvalue
  · rename_i hlength
    cases hrun : calls (CborReader.new ⟨cbor, hlength⟩) with
    | ok result reader' =>
      rw [hrun] at hvalue
      cases hvalue
      exact h _ _ _ hrun
    | error exception reader' =>
      rw [hrun] at hvalue
      cases hvalue
  · cases hvalue

end Returning

end CardanoSdk.Plutus
