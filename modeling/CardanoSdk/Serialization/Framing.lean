import CardanoSdk.Serialization.Inversion

/-!
Actions that take whole items, and arrays that are read up to some of their
items. Such an action reads the same in any frame around these items.
-/

namespace CardanoSdk.Serialization

open Lib Cbor Plutus

/-- What the action reads is one item, and it reads the same from it everywhere. -/
def TakesItem {α : Type} (action : DecodeM α) : Prop :=
  Takes action (OneItem fun item value => DataItem item ∧ ReadsItem action item value)

section TakesItem

variable {α β : Type}

theorem takesItem_int : TakesItem (reading readInt) := by
  refine takes_int.mono ?_
  rintro items bytes value ⟨hone, hhead⟩
  exact ⟨hone, hhead.dataItem, readsItem_integerHead hhead⟩

theorem takesItem_part (fromCbor : List UInt8 → Except DecodeException α) :
    TakesItem (readPart fromCbor) := by
  refine (takes_part fromCbor).mono ?_
  rintro items bytes value ⟨hone, hpart⟩
  exact ⟨hone, hpart.item, hpart.readsItem⟩

theorem TakesItem.map {action : DecodeM β} (h : TakesItem action) (convert : β → α) :
    TakesItem (action >>= fun value => pure (convert value)) := by
  have hmap := @Takes.map _ _ action (fun value => pure (convert value)) _
    (fun value result => result = convert value) h
    (fun value reader result reader' hrun => by cases hrun; exact ⟨rfl, rfl⟩)
  refine hmap.mono ?_
  rintro items bytes result ⟨value, ⟨hone, hitem, hread⟩, rfl⟩
  exact ⟨hone, hitem, hread.map fun _ => rfl⟩

theorem takesItem_list (fromCbor : List UInt8 → Except DecodeException α) (rounds : ℕ) :
    TakesItem (readList fromCbor rounds) := by
  intro reader items reader' _ hrun
  obtain ⟨elements, declared, bytes, hparts, hframed, hlength, hpassed⟩ := readList_eq_ok hrun
  have hitem := hframed.array (items_of_wellFormed (DecodesPart.dataItems hparts))
  exact ⟨1, bytes, taken_item hitem hpassed, rfl, hitem, readsItem_list hparts hframed hlength⟩

theorem TakesItem.readsItem {action : DecodeM α} (h : TakesItem action) {item : List UInt8}
    {value : α} (hitem : DataItem item) (hrun : decodeWith item action = .ok value) :
    ReadsItem action item value := by
  obtain ⟨hlength, reader, reader', hfresh, hroot, hrun⟩ := decodeWith_eq_ok hrun
  obtain ⟨_, bytes, htaken, rfl, hitem', hread⟩ := h _ _ _ (plain_of_root hroot) hrun
  obtain ⟨rest, hbytes⟩ := htaken.bytes
  rw [hfresh.bytes] at hbytes
  rw [dataItem_eq_of_append hitem hitem' hbytes (by rwa [List.append_nil])]
  exact hread

def TakesItems (action : DecodeM α) : Prop :=
  Takes action fun items bytes value => Reads action items bytes value

theorem TakesItem.takesItems {action : DecodeM α} (h : TakesItem action) : TakesItems action := by
  refine h.mono ?_
  rintro items bytes value ⟨rfl, _, hread⟩
  exact hread.reads

theorem TakesItems.bind {first : DecodeM β} {next : β → DecodeM α} (hfirst : TakesItems first)
    (hnext : ∀ b, TakesItems (next b)) : TakesItems (first >>= next) := by
  refine (Takes.bind hfirst hnext).mono ?_
  rintro items bytes value ⟨items₁, items₂, bytes₁, bytes₂, b, rfl, rfl, hreads, hreads'⟩
  exact hreads.bind hreads'

theorem TakesItems.map {first : DecodeM β} (hfirst : TakesItems first) (convert : β → α) :
    TakesItems (first >>= fun value => pure (convert value)) := by
  have hmap := @Takes.map _ _ first (fun value => pure (convert value)) _
    (fun value result => result = convert value) hfirst
    (fun value reader result reader' hrun => by cases hrun; exact ⟨rfl, rfl⟩)
  refine hmap.mono ?_
  rintro items bytes result ⟨value, hreads, rfl⟩
  exact hreads.map fun _ => rfl

theorem takesItem_closedArray {body : Option ℕ → DecodeM α}
    (hbody : ∀ declared, TakesItems (body declared)) :
    TakesItem (reading readStartArray >>= fun length => body length >>= fun value =>
      reading readEndArray >>= fun _ => pure value) := by
  intro reader value reader' _ hrun
  obtain ⟨declared, entered, hstart, hrun⟩ := run_bind_eq_ok hrun
  obtain ⟨result, moved, hcontent, hrun⟩ := run_bind_eq_ok hrun
  obtain ⟨_, left, hleave, hpure⟩ := run_bind_eq_ok hrun
  cases hpure
  have hplain := (readStartArray_entered (reading_eq_ok hstart)).plain (Or.inl rfl)
  obtain ⟨items, bytes, htaken, hreads⟩ := hbody declared _ _ _ hplain hcontent
  obtain ⟨whole, hframed, hpassed⟩ := closedArray_eq_ok hstart htaken hleave
  have hitem := hframed.array htaken.items
  exact ⟨1, whole, taken_item hitem hpassed, rfl, hitem,
    readsItem_closedArray hframed htaken.items.le_length hreads⟩

end TakesItem

theorem dataItems_take {items items' : List (List UInt8)} {rest rest' : List UInt8}
    (hitems : ∀ item ∈ items, DataItem item) (hitems' : ∀ item ∈ items', DataItem item)
    (heq : items.flatten ++ rest = items'.flatten ++ rest') (hle : items'.length ≤ items.length)
    (hlength : (items.flatten ++ rest).length < 2 ^ 53) : items' = items.take items'.length := by
  induction items' generalizing items with
  | nil => rfl
  | cons item' items' ih =>
    cases items with
    | nil => cases hle
    | cons item items =>
      rw [List.forall_mem_cons] at hitems hitems'
      rw [List.flatten_cons, List.flatten_cons, List.append_assoc, List.append_assoc] at heq
      rw [List.flatten_cons, List.append_assoc, List.length_append] at hlength
      have hsame := dataItem_eq_of_append hitems.1 hitems'.1 heq
        (by rw [List.length_append]; exact hlength)
      subst hsame
      have htail := ih hitems.2 hitems'.2 (List.append_cancel_left heq) (Nat.le_of_succ_le_succ hle)
        (by omega)
      rw [List.length_cons, List.take_succ_cons, ← htail]

theorem dataItems_inj {items items' : List (List UInt8)} (hitems : ∀ item ∈ items, DataItem item)
    (hitems' : ∀ item ∈ items', DataItem item) (heq : items.flatten = items'.flatten)
    (hlength : items.flatten.length < 2 ^ 53) : items = items' := by
  wlog hle : items'.length ≤ items.length generalizing items items'
  · exact (this hitems' hitems heq.symm (heq ▸ hlength) (Nat.le_of_not_le hle)).symm
  have hinitial := @dataItems_take items items' [] [] hitems hitems' (by rw [heq]) hle
    (by rwa [List.append_nil])
  have hdrop : (items.drop items'.length).flatten = [] := by
    have hsplit := congrArg List.flatten (List.take_append_drop items'.length items)
    rw [List.flatten_append, ← hinitial, heq] at hsplit
    exact List.append_right_eq_self.mp hsplit
  have hempty := @length_le_flatten (items.drop items'.length)
    fun item h => hitems item (List.mem_of_mem_drop h)
  rw [hdrop, List.length_nil, Nat.le_zero, List.length_drop] at hempty
  rw [hinitial, List.take_of_length_le (by omega)]

structure Behind (items : List (List UInt8)) (declared : Option ℕ) (count : ℕ)
    (reader : CborReader) : Prop where
  bytes : ∃ tail, reader.getRemainingBytes = (items.drop count).flatten ++ tail
  room : HasRoom reader (items.length - count)
  ends : declared ≠ none → count = items.length → reader.currentFrame.isComplete = true

section Behind

variable {α β : Type} {items : List (List UInt8)} {declared : Option ℕ} {bytes rest : List UInt8}
  {reader reader' : CborReader} {first : DecodeM β} {next : Option ℕ → β → DecodeM α} {b : β}

theorem Entered.definiteLength {entered : CborReader} {size : ℕ}
    (h : Entered reader .array (some size) entered) :
    entered.currentFrame.definiteLength = some size := by
  cases h
  rfl

theorem behind_pass {entered : CborReader} {count : ℕ} {tail : List UInt8}
    (hentered : Entered reader .array declared entered)
    (hdeclared : declared ≠ none → declared = some items.length)
    (hbytes : entered.getRemainingBytes = items.flatten ++ tail)
    (hroom : HasRoom entered items.length) (hcount : count ≤ items.length) :
    Behind items declared count (entered.pass count (items.take count).flatten.length) where
  bytes := by
    refine ⟨tail, ?_⟩
    have hsplit := congrArg List.flatten (List.take_append_drop count items)
    rw [List.flatten_append] at hsplit
    rw [CborReader.getRemainingBytes_pass, hbytes, ← hsplit, List.append_assoc, List.drop_left]
  room := by
    apply HasRoom.pass
    rwa [Nat.add_sub_cancel' hcount]
  ends := by
    intro hdefinite hall
    have hlength := hdeclared hdefinite
    subst hlength
    have hframe := hentered.definiteLength
    have hread := hentered.itemsRead
    simp [StackFrame.isComplete, CborReader.pass, hframe, hread, hall]

theorem run_firstItems {count : ℕ} (hitems : ∀ item ∈ items, DataItem item)
    (hframed : Framed 4 items.length items.flatten declared bytes)
    (hbytes : reader.getRemainingBytes = bytes ++ rest)
    (haccepts : ∀ initial, reader.currentFrame.Accepts initial) (hcount : count ≤ items.length)
    (hreads : Reads first count (items.take count).flatten b) :
    ∃ middle, Behind items declared count middle ∧
      (reading readStartArray >>= fun length => first >>= next length) reader =
        next declared b middle := by
  obtain ⟨entered, tail, hstart, hinner, hroom, _⟩ :=
    entersArray hframed (length_le_flatten hitems) hbytes haccepts
  have hdeclared : declared ≠ none → declared = some items.length := by
    intro hdefinite
    cases hframed with
    | definite _ => rfl
    | indefinite => exact absurd rfl hdefinite
  refine ⟨_, behind_pass (readStartArray_entered hstart) hdeclared hinner hroom hcount, ?_⟩
  have hsplit := congrArg List.flatten (List.take_append_drop count items)
  rw [List.flatten_append] at hsplit
  rw [← hsplit, List.append_assoc] at hinner
  rw [← Nat.add_sub_cancel' hcount] at hroom
  rw [run_bind_ok (reading_ok hstart), run_bind_ok (hreads entered _ _ hinner hroom)]

theorem firstItems_of_run {value : α} (hitems : ∀ item ∈ items, DataItem item)
    (hframed : Framed 4 items.length items.flatten (some items.length) bytes)
    (hbytes : reader.getRemainingBytes = bytes ++ rest)
    (haccepts : ∀ initial, reader.currentFrame.Accepts initial) (hfirst : TakesItems first)
    (hrun : (reading readStartArray >>= fun length => first >>= next length) reader =
      .ok value reader') :
    ∃ count b middle, count ≤ items.length ∧ Reads first count (items.take count).flatten b ∧
      Behind items (some items.length) count middle ∧
      next (some items.length) b middle = .ok value reader' := by
  obtain ⟨entered, tail, hstart, hinner, hroom, _⟩ :=
    entersArray hframed (length_le_flatten hitems) hbytes haccepts
  have hentered := readStartArray_entered hstart
  rw [run_bind_ok (reading_ok hstart)] at hrun
  obtain ⟨b, middle, hread, hnext⟩ := run_bind_eq_ok hrun
  obtain ⟨count, taken, htaken, hreads⟩ :=
    hfirst _ _ _ (hentered.plain (Or.inl rfl)) hread
  have hcount := htaken.room _ hentered.definiteLength (by rw [hentered.itemsRead]; exact Nat.zero_le _)
  rw [hentered.itemsRead, Nat.zero_add] at hcount
  obtain ⟨items', rfl, rfl, hitems'⟩ := htaken.items.exists_list
  obtain ⟨tail', hbytes'⟩ := htaken.bytes
  have hlt := entered.getRemainingBytes_lt
  rw [hinner] at hbytes' hlt
  have hinitial := dataItems_take hitems hitems' hbytes' hcount hlt
  rw [hinitial] at hreads
  have hmiddle := htaken.state
  rw [hinitial] at hmiddle
  subst hmiddle
  rw [List.length_take, Nat.min_eq_left hcount] at hreads hnext
  refine ⟨_, b, _, hcount, hreads, ?_, hnext⟩
  exact behind_pass hentered (fun _ => rfl) hinner hroom hcount

end Behind

end CardanoSdk.Serialization
