import CardanoSdk.Lib.Packing
import CardanoSdk.Lib.Utf16

/-!
`StringUtils` of `util/src/string.ts` and the message metadata of
`tx-construction/src/tx-metadata/cip20.ts`.
-/

namespace CardanoSdk.TxConstruction

open Lib

namespace StringUtils

/-- `new Blob([str]).size` -/
def byteSize (str : JsString) : ℕ := (utf8Bytes str).length

/-- `str[index]` -/
def charAt (str : JsString) (index : ℕ) : JsString := str[index]?.toList

def slice (str : JsString) (start stop : ℕ) : JsString := (str.take stop).drop start

structure Chunking where
  chunkSize : ℕ
  chunkStart : ℕ
  result : List JsString

def Chunking.next (str : JsString) (maxBytes : ℕ) (chunking : Chunking) (char : ℕ) : Chunking :=
  let isEndOfArray := decide (char = str.length - 1)
  let currentChunkSize := chunking.chunkSize + byteSize (charAt str char)
  let nextCharSize :=
    if !isEndOfArray then currentChunkSize + byteSize (charAt str (char + 1)) else maxBytes + 1
  let atLimit :=
    decide (currentChunkSize = maxBytes) || decide (nextCharSize > maxBytes) || isEndOfArray
  if atLimit then
    { chunkSize := 0
      chunkStart := char + 1
      result := chunking.result ++ [slice str chunking.chunkStart (char + 1)] }
  else { chunking with chunkSize := currentChunkSize }

def chunkByBytes (str : JsString) (maxBytes : ℕ) : List JsString :=
  ((List.range str.length).foldl (Chunking.next str maxBytes) ⟨0, 0, []⟩).result

/-- What a unit alone counts for: three bytes if it is half of a pair. -/
def unitSize (unit : UInt16) : ℕ := byteSize [unit]

theorem unitSize_eq (unit : UInt16) : unitSize unit = (unitChar unit).utf8Size :=
  length_utf8Bytes_singleton unit

theorem unitSize_pos (unit : UInt16) : 0 < unitSize unit := by
  rw [unitSize_eq]
  exact Char.utf8Size_pos _

theorem unitSize_le (unit : UInt16) : unitSize unit ≤ 3 := by
  rw [unitSize_eq]
  exact utf8Size_unitChar_le unit

theorem byteSize_le_sum (str : JsString) : byteSize str ≤ (str.map unitSize).sum := by
  induction str with
  | nil => exact le_rfl
  | cons unit rest ih =>
    rw [List.map_cons, List.sum_cons]
    exact (length_utf8Bytes_append_le [unit] rest).trans (Nat.add_le_add_left ih _)

theorem charAt_length (done rest : JsString) (unit : UInt16) :
    charAt (done ++ unit :: rest) done.length = [unit] := by
  rw [charAt, List.getElem?_append_right le_rfl, Nat.sub_self]
  rfl

theorem slice_length (done pending rest : JsString) :
    slice (done ++ pending ++ rest) done.length (done.length + pending.length) = pending := by
  rw [slice, ← List.length_append, List.take_left, List.drop_left]

variable {maxBytes : ℕ}

theorem Chunking.next_eq {load : ℕ} {done pending rest : JsString} {unit : UInt16}
    {result : List JsString} :
    Chunking.next (done ++ pending ++ unit :: rest) maxBytes ⟨load, done.length, result⟩
        (done.length + pending.length) =
      if rest.head?.all fun next => maxBytes < load + unitSize unit + unitSize next then
        ⟨0, done.length + pending.length + 1, result ++ [pending ++ [unit]]⟩
      else ⟨load + unitSize unit, done.length, result⟩ := by
  have hchar := charAt_length (done ++ pending) rest unit
  have hslice := slice_length done (pending ++ [unit]) rest
  rw [List.length_append] at hchar
  rw [List.length_append, List.length_singleton, ← List.append_assoc,
    List.append_assoc (done ++ pending), List.singleton_append, ← Nat.add_assoc] at hslice
  unfold Chunking.next
  dsimp only
  rw [hchar, hslice]
  cases rest with
  | nil =>
    have hend : done.length + pending.length = (done ++ pending ++ [unit]).length - 1 := by simp
    rw [decide_eq_true hend]
    simp
  | cons next rest =>
    have hend : ¬ done.length + pending.length =
        (done ++ pending ++ unit :: next :: rest).length - 1 := by
      simp only [List.length_append, List.length_cons]
      omega
    have hnext := charAt_length (done ++ pending ++ [unit]) rest next
    rw [List.append_assoc (done ++ pending), List.singleton_append, List.length_append,
      List.length_append, List.length_singleton] at hnext
    have hpos := unitSize_pos next
    have hlimit : (decide (load + byteSize [unit] = maxBytes) ||
        decide (load + byteSize [unit] + byteSize [next] > maxBytes) || false) = true ↔
        ((next :: rest).head?.all fun next =>
          maxBytes < load + unitSize unit + unitSize next) = true := by
      unfold unitSize at *
      simp only [Bool.or_false, Bool.or_eq_true, decide_eq_true_eq, List.head?_cons,
        Option.all_some]
      omega
    rw [decide_eq_false hend, hnext, Bool.not_false, if_pos rfl]
    exact if_congr hlimit rfl rfl

theorem foldl_next_eq {maxBytes load : ℕ} (hmax : 3 ≤ maxBytes) {done pending rest : JsString}
    {unit : UInt16} {result : List JsString} (hfits : load + unitSize unit ≤ maxBytes) :
    ((List.range' (done.length + pending.length) (unit :: rest).length).foldl
      (Chunking.next (done ++ pending ++ unit :: rest) maxBytes)
      ⟨load, done.length, result⟩).result =
    result ++ fillBins unitSize maxBytes pending load (unit :: rest) := by
  induction rest generalizing load done pending unit result with
  | nil =>
    rw [List.length_singleton, List.range'_one, List.foldl_cons, List.foldl_nil,
      Chunking.next_eq, if_pos (by simp), fillBins, if_pos hfits, fillBins]
  | cons next rest ih =>
    rw [List.length_cons, List.range'_succ, List.foldl_cons, Chunking.next_eq, fillBins,
      if_pos hfits, fillBins]
    simp only [List.head?_cons, Option.all_some, decide_eq_true_eq]
    by_cases hlimit : maxBytes < load + unitSize unit + unitSize next
    · have hnext := unitSize_le next
      have hrest := @ih 0 (done ++ pending ++ [unit]) [] next (result ++ [pending ++ [unit]])
        (by omega)
      rw [if_pos hlimit, if_neg (Nat.not_le.mpr hlimit)]
      rw [fillBins, Nat.zero_add, if_pos (by omega), List.nil_append, List.append_nil,
        List.length_nil, Nat.add_zero, List.length_append, List.length_append,
        List.length_singleton, ← List.append_cons (done ++ pending)] at hrest
      rw [hrest, ← List.append_cons]
    · rw [if_neg hlimit, if_pos (Nat.not_lt.mp hlimit)]
      have hrest := @ih (load + unitSize unit) done (pending ++ [unit]) next result
        (Nat.not_lt.mp hlimit)
      rw [fillBins, if_pos (Nat.not_lt.mp hlimit), List.length_append, List.length_singleton,
        ← Nat.add_assoc, ← List.append_assoc, ← List.append_cons (done ++ pending)] at hrest
      exact hrest

theorem chunkByBytes_eq_nextFit (hmax : 3 ≤ maxBytes) (str : JsString) :
    chunkByBytes str maxBytes = nextFit unitSize maxBytes str := by
  cases str with
  | nil => rfl
  | cons unit rest =>
    have hunit := unitSize_le unit
    have hloop := @foldl_next_eq maxBytes 0 hmax [] [] rest unit [] (by omega)
    rw [List.nil_append, fillBins, Nat.zero_add, if_pos (by omega)] at hloop
    rw [chunkByBytes, List.range_eq_range']
    exact hloop

theorem flatten_chunkByBytes (hmax : 3 ≤ maxBytes) (str : JsString) :
    (chunkByBytes str maxBytes).flatten = str := by
  rw [chunkByBytes_eq_nextFit hmax, flatten_nextFit]

theorem ne_nil_of_mem_chunkByBytes {maxBytes : ℕ} (hmax : 3 ≤ maxBytes) {str chunk : JsString}
    (hmem : chunk ∈ chunkByBytes str maxBytes) : chunk ≠ [] := by
  rw [chunkByBytes_eq_nextFit hmax] at hmem
  exact ne_nil_of_mem_nextFit hmem

theorem byteSize_le_of_mem_chunkByBytes (hmax : 3 ≤ maxBytes) {str chunk : JsString}
    (hmem : chunk ∈ chunkByBytes str maxBytes) : byteSize chunk ≤ maxBytes := by
  rw [chunkByBytes_eq_nextFit hmax] at hmem
  refine (byteSize_le_sum chunk).trans (sum_le_of_mem_nextFit (fun unit => ?_) hmem)
  exact (unitSize_le unit).trans hmax

/-- No pair of the string meets a chunk that has room for its first half but not for
its second. -/
def PairsFit (str : JsString) (maxBytes : ℕ) : Prop :=
  ∀ before high low after, str = before ++ high :: low :: after →
    isHighSurrogate high = true → isLowSurrogate low = true →
    loadAfter unitSize maxBytes 0 (before ++ [high]) + unitSize low ≤ maxBytes

theorem keepsPairs_chunkByBytes_iff (hmax : 3 ≤ maxBytes) (str : JsString) :
    KeepsPairs (chunkByBytes str maxBytes) ↔ PairsFit str maxBytes := by
  have hmeets (a b : JsString) : ¬ SplitsPair a b ↔
      Meets (fun x y => ¬ (isHighSurrogate x = true ∧ isLowSurrogate y = true)) a b := by
    unfold SplitsPair Meets
    constructor
    · intro hsplit x hx y hy hpair
      exact hsplit ⟨⟨x, hx, hpair.1⟩, ⟨y, hy, hpair.2⟩⟩
    · rintro hmeets ⟨⟨x, hx, hhigh⟩, y, hy, hlow⟩
      exact hmeets x hx y hy ⟨hhigh, hlow⟩
  have hitem (unit : UInt16) : unitSize unit ≤ maxBytes := (unitSize_le unit).trans hmax
  rw [chunkByBytes_eq_nextFit hmax, KeepsPairs]
  simp only [hmeets]
  rw [isChain_nextFit_iff hitem]
  unfold PairsFit
  constructor
  · intro h before high low after hstr hhigh hlow
    exact Nat.not_lt.mp fun hlimit => h before high low after hstr hlimit ⟨hhigh, hlow⟩
  · intro h before high low after hstr hlimit hpair
    exact absurd (h before high low after hstr hpair.1 hpair.2) (Nat.not_le.mpr hlimit)

/-- The chunks hold whole characters, respect the limit and contain the text. -/
def ChunksLossless (text : String) (maxBytes : ℕ) : Prop :=
  (∀ chunk ∈ chunkByBytes (utf16Encode text) maxBytes, WellFormedUtf16 chunk) ∧
  (∀ chunk ∈ chunkByBytes (utf16Encode text) maxBytes, byteSize chunk ≤ maxBytes) ∧
  (chunkByBytes (utf16Encode text) maxBytes).flatMap utf8Bytes = utf8Encode text

theorem flatMap_utf8Bytes_chunkByBytes_iff (hmax : 3 ≤ maxBytes) (text : String) :
    (chunkByBytes (utf16Encode text) maxBytes).flatMap utf8Bytes = utf8Encode text ↔
      PairsFit (utf16Encode text) maxBytes := by
  have hwhole := flatMap_utf8Bytes_iff fun chunk (hmem : chunk ∈ chunkByBytes _ _) =>
    @ne_nil_of_mem_chunkByBytes maxBytes hmax (utf16Encode text) chunk hmem
  rw [flatten_chunkByBytes hmax, utf8Bytes_utf16Encode, keepsPairs_chunkByBytes_iff hmax] at hwhole
  exact hwhole

theorem chunksLossless_iff (hmax : 3 ≤ maxBytes) (text : String) :
    ChunksLossless text maxBytes ↔ PairsFit (utf16Encode text) maxBytes := by
  unfold ChunksLossless
  have hwell := forall_wellFormed_iff
    (fun chunk (hmem : chunk ∈ chunkByBytes _ _) =>
      @ne_nil_of_mem_chunkByBytes maxBytes hmax (utf16Encode text) chunk hmem)
    (by rw [flatten_chunkByBytes hmax]; exact ⟨text, rfl⟩)
  rw [hwell, keepsPairs_chunkByBytes_iff hmax, flatMap_utf8Bytes_chunkByBytes_iff hmax]
  constructor
  · exact fun h => h.1
  · exact fun h => ⟨h, fun chunk hmem => byteSize_le_of_mem_chunkByBytes hmax hmem, h⟩

end StringUtils

namespace Cip20

open StringUtils

def metadatumLabel : ℕ := 674

def maxBytes : ℕ := 64

inductive MessageValidationFailure where
  | wrongType
  | oversize
  deriving DecidableEq

def MessageValidationFailure.text : MessageValidationFailure → String
  | .wrongType => "WrongType"
  | .oversize => "Oversize"

structure MessageValidationResult where
  valid : Bool
  failure : Option MessageValidationFailure

/-- What a caller may pass for a message. -/
inductive Entry where
  | text (str : JsString)
  | other

def validateMessage : Entry → MessageValidationResult
  | .other => { failure := some .wrongType, valid := false }
  | .text entry =>
    if byteSize entry > maxBytes then { failure := some .oversize, valid := false }
    else { valid := true, failure := none }

abbrev ValidationResultMap := JsMap JsString MessageValidationResult

/-- `MessageValidationError`: its text names the first failure only. -/
def validationError (failures : ValidationResultMap) : JsString :=
  utf16Encode "The provided message array contains validation errors | " ++
    match failures.entries with
    | [] => []
    | (message, result) :: _ =>
      utf16Encode ((result.failure.map MessageValidationFailure.text).getD "undefined" ++ ": ") ++
        slice message 0 (max 0 (maxBytes + 1))

inductive TxMetadataArgs where
  | messages (messages : List JsString)
  | text (str : JsString)

abbrev TxMetadata := JsMap ℕ (JsMap JsString (List JsString))

def msgKey : JsString := utf16Encode "msg"

def invalidMessages (messages : List JsString) : ValidationResultMap :=
  messages.foldl (fun invalid message =>
    let result := validateMessage (.text message)
    if !result.valid then invalid.set message result else invalid) JsMap.empty

def toTxMetadata (args : TxMetadataArgs) : Except JsString TxMetadata :=
  let messages :=
    match args with
    | .text str => chunkByBytes str maxBytes
    | .messages messages => messages
  if (invalidMessages messages).size > 0 then
    .error (validationError (invalidMessages messages))
  else .ok (JsMap.empty.set metadatumLabel (JsMap.empty.set msgKey messages))

def onChainMessage (metadata : TxMetadata) : Option (List UInt8) := do
  let entries ← metadata.get? metadatumLabel
  let messages ← entries.get? msgKey
  return messages.flatMap utf8Bytes

theorem valid_validateMessage_iff {message : JsString} :
    (validateMessage (.text message)).valid = true ↔ byteSize message ≤ maxBytes := by
  unfold validateMessage
  dsimp only
  split
  next hsize => exact iff_of_false Bool.false_ne_true (Nat.not_le.mpr hsize)
  next hsize => exact iff_of_true rfl (Nat.not_lt.mp hsize)

theorem invalidMessages_eq_empty {messages : List JsString}
    (hmessages : ∀ message ∈ messages, byteSize message ≤ maxBytes) :
    invalidMessages messages = JsMap.empty := by
  unfold invalidMessages
  induction messages with
  | nil => rfl
  | cons message rest ih =>
    have hvalid := valid_validateMessage_iff.mpr (hmessages message List.mem_cons_self)
    rw [List.foldl_cons]
    dsimp only
    rw [hvalid, Bool.not_true, if_neg Bool.false_ne_true]
    exact ih fun other hother => hmessages other (List.mem_cons_of_mem _ hother)

theorem toTxMetadata_text (str : JsString) :
    toTxMetadata (.text str) = .ok (JsMap.empty.set metadatumLabel
      (JsMap.empty.set msgKey (chunkByBytes str maxBytes))) := by
  have hempty : invalidMessages (chunkByBytes str maxBytes) = JsMap.empty :=
    invalidMessages_eq_empty fun chunk hmem =>
      byteSize_le_of_mem_chunkByBytes (by decide) hmem
  rw [toTxMetadata, hempty]
  rfl

theorem onChainMessage_set (messages : List JsString) :
    onChainMessage (JsMap.empty.set metadatumLabel (JsMap.empty.set msgKey messages)) =
      some (messages.flatMap utf8Bytes) := by
  rw [onChainMessage, JsMap.get?_set_self, Option.bind_eq_bind, Option.bind_some,
    JsMap.get?_set_self]
  rfl

/-- A message on chain is the whole text if and only if no chunk ends inside a pair
of its UTF-16 string. -/
theorem message_lossless_iff (text : String) :
    (∀ limit, 4 ≤ limit →
      (ChunksLossless text limit ↔ PairsFit (utf16Encode text) limit)) ∧
    ∃ metadata, toTxMetadata (.text (utf16Encode text)) = .ok metadata ∧
      (onChainMessage metadata = some (utf8Encode text) ↔
        PairsFit (utf16Encode text) maxBytes) := by
  refine ⟨fun limit hlimit => chunksLossless_iff (by omega) text, _, toTxMetadata_text _, ?_⟩
  rw [onChainMessage_set, Option.some.injEq]
  exact flatMap_utf8Bytes_chunkByBytes_iff (by decide) text

def greetingChars : List Char := Char.ofNat 0x1f600 :: List.replicate 70 'a'

theorem utf16Encode_greeting :
    utf16Encode (String.ofList greetingChars) = 0xd83d :: 0xde00 :: List.replicate 70 97 := by
  have hchars : greetingChars.flatMap utf16EncodeChar =
      0xd83d :: 0xde00 :: List.replicate 70 97 := by decide
  exact (congrArg (List.flatMap utf16EncodeChar) String.toList_ofList).trans hchars

theorem pairsFit_greeting : PairsFit (utf16Encode (String.ofList greetingChars)) maxBytes := by
  intro before high low after hstr hhigh _
  rw [utf16Encode_greeting] at hstr
  cases before with
  | nil =>
    cases hstr
    decide
  | cons first before =>
    -- the pair is the only one, and it stands at the beginning
    have hmem : high ∈ 0xde00 :: List.replicate 70 97 := by
      rw [(List.cons.inj hstr).2]
      exact List.mem_append_right _ List.mem_cons_self
    rcases List.mem_cons.mp hmem with rfl | hletter
    · exact absurd hhigh (by decide)
    · rw [List.eq_of_mem_replicate hletter] at hhigh
      exact absurd hhigh (by decide)

theorem message_lossless_greeting :
    ChunksLossless (String.ofList greetingChars) maxBytes ∧
    ∃ metadata, toTxMetadata (.text (utf16Encode (String.ofList greetingChars))) = .ok metadata ∧
      onChainMessage metadata = some (utf8Encode (String.ofList greetingChars)) := by
  obtain ⟨hchunks, metadata, hmade, hchain⟩ := message_lossless_iff (String.ofList greetingChars)
  exact ⟨(hchunks maxBytes (by decide)).mpr pairsFit_greeting, metadata, hmade,
    hchain.mpr pairsFit_greeting⟩

/-- 61 letters and an emoji: the first chunk has room for half of it. -/
def straddlingChars : List Char := List.replicate 61 'a' ++ [Char.ofNat 0x1f600]

theorem message_not_lossless :
    ¬ ∀ text : String, (∀ limit, 4 ≤ limit → ChunksLossless text limit) ∧
      ∃ metadata, toTxMetadata (.text (utf16Encode text)) = .ok metadata ∧
        onChainMessage metadata = some (utf8Encode text) := by
  intro h
  have hlossless := (h (String.ofList straddlingChars)).1 maxBytes (by decide)
  have hchars : straddlingChars.flatMap utf16EncodeChar =
      List.replicate 61 97 ++ 0xd83d :: 0xde00 :: [] := by decide
  have hunits : utf16Encode (String.ofList straddlingChars) =
      List.replicate 61 97 ++ 0xd83d :: 0xde00 :: [] :=
    (congrArg (List.flatMap utf16EncodeChar) String.toList_ofList).trans hchars
  have hfit := (chunksLossless_iff (by decide) _).mp hlossless
    (List.replicate 61 97) 0xd83d 0xde00 [] hunits (by decide) (by decide)
  exact absurd hfit (by decide +kernel)

end Cip20

end CardanoSdk.TxConstruction
