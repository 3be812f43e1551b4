import CardanoSdk.Plutus.Core
import CardanoSdk.Plutus.Leaves

/-!
Encoders that write step by step and encode parts in between, and rules for
what they write and for which of it is a data item.
-/

namespace CardanoSdk.Serialization

open Lib Cbor Plutus

inductive EncodeException where
  | range (exception : RangeError)
  | undefinedAccess
  | error (message : String)
  deriving DecidableEq

def serializationError (reason detail : String) : String := reason ++ " (" ++ detail ++ ")"

abbrev EncodeM := EStateM EncodeException CborWriter

def writing (action : WriteM Unit) : EncodeM Unit := fun writer =>
  match action writer with
  | .ok _ writer' => .ok () writer'
  | .error exception writer' => .error (.range exception) writer'

def encoding {α : Type} (result : Except EncodeException α) : EncodeM α := fun writer =>
  match result with
  | .ok value => .ok value writer
  | .error exception => .error exception writer

/-- `writer.encodeAsHex()` after the calls of a new writer. -/
def encodeAsHex (calls : EncodeM Unit) : Except EncodeException (List UInt8) :=
  match calls {} with
  | .ok _ writer => .ok writer.buffer
  | .error exception _ => .error exception

/-- `if (this.#originalBytes) return this.#originalBytes` -/
def cachedOr (originalBytes : Option (List UInt8)) (encode : Except EncodeException (List UInt8)) :
    Except EncodeException (List UInt8) :=
  match truthy originalBytes with
  | some cbor => .ok cbor
  | none => encode

def Encodes (action : EncodeM Unit) (bytes : List UInt8) : Prop :=
  ∀ writer, action writer = .ok () (writer.append bytes)

section Encodes

variable {α : Type} {action : EncodeM Unit} {bytes bytes' : List UInt8}

theorem encodes_writing {action : WriteM Unit} (h : Writes action bytes) :
    Encodes (writing action) bytes := by
  intro writer
  rw [writing, h]

theorem Encodes.pure : Encodes (pure ()) [] := by
  intro writer
  rw [CborWriter.append, List.append_nil]
  rfl

variable {next : Unit → EncodeM Unit}

theorem Encodes.bind (hfirst : Encodes action bytes) (hnext : Encodes (next ()) bytes') :
    Encodes (action >>= next) (bytes ++ bytes') := by
  intro writer
  rw [run_bind_ok (hfirst writer), hnext]
  simp [CborWriter.append]

theorem Encodes.write {action : WriteM Unit} (hfirst : Writes action bytes)
    (hnext : Encodes (next ()) bytes') : Encodes (writing action >>= next) (bytes ++ bytes') :=
  (encodes_writing hfirst).bind hnext

theorem Encodes.encode {result : Except EncodeException α} {next : α → EncodeM Unit} {value : α}
    (hresult : result = .ok value) (hnext : Encodes (next value) bytes) :
    Encodes (encoding result >>= next) bytes := by
  intro writer
  subst hresult
  exact hnext writer

theorem Encodes.forM {items : List α} {write : α → EncodeM Unit} {written : α → List UInt8}
    (h : ∀ item ∈ items, Encodes (write item) (written item)) :
    Encodes (items.forM write) (items.flatMap written) := by
  induction items with
  | nil => exact Encodes.pure
  | cons item items ih =>
    rw [List.forall_mem_cons] at h
    exact h.1.bind (ih h.2)

theorem writes_startArray {length : ℕ} (h : length < 2 ^ 64) :
    Writes (writeStartArray (some length)) (encodeHead .array length) :=
  writes_typeValue .array h

theorem writes_startMap {length : ℕ} (h : length < 2 ^ 64) :
    Writes (writeStartMap (some length)) (encodeHead .map length) :=
  writes_typeValue .map h

theorem writes_forM {items : List α} {write : α → WriteM Unit} {written : α → List UInt8}
    (h : ∀ item ∈ items, Writes (write item) (written item)) :
    Writes (items.forM write) (items.flatMap written) := by
  induction items with
  | nil => exact Writes.pure
  | cons item items ih =>
    rw [List.forall_mem_cons] at h
    exact h.1.bind (ih h.2)

theorem encodeAsHex_ok (h : Encodes action bytes) : encodeAsHex action = .ok bytes := by
  rw [encodeAsHex, h]
  rfl

end Encodes

theorem items_one {item : List UInt8} (h : DataItem item) : Items 1 item := by
  have hitems := Items.cons h Items.nil
  rwa [List.append_nil] at hitems

theorem dataItem_encodeChunk {value : List UInt8} (h : value.length < 2 ^ 64) :
    DataItem (encodeChunk value) :=
  DataItem.string (Or.inl rfl) (stringItem_encodeChunk h)

theorem dataItem_encodeTag {tag : ℕ} {item : List UInt8} (htag : tag < 2 ^ 64)
    (hitem : DataItem item) : DataItem (encodeHead .tag tag ++ item) :=
  DataItem.tag (head_encodeHead .tag htag) hitem

variable {α : Type}

theorem items_entries {entries : List α} {key value : α → List UInt8}
    (h : ∀ entry ∈ entries, DataItem (key entry) ∧ DataItem (value entry)) :
    Items (2 * entries.length) (entries.flatMap fun entry => key entry ++ value entry) := by
  have hitems := @items_entriesBytes (entries.map fun entry => (key entry, value entry)) (by simpa)
  rwa [List.length_map, entriesBytes, List.flatMap_map] at hitems

theorem dataItem_entries {entries : List α} {key value : α → List UInt8}
    (hcount : entries.length < 2 ^ 64)
    (h : ∀ entry ∈ entries, DataItem (key entry) ∧ DataItem (value entry)) :
    DataItem (encodeHead .map entries.length ++
      entries.flatMap fun entry => key entry ++ value entry) :=
  DataItem.map (head_encodeHead .map hcount) (items_entries h)

end CardanoSdk.Serialization
