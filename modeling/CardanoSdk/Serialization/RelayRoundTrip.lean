import CardanoSdk.Serialization.PoolParams
import Mathlib.Data.List.TakeWhile

/-!
Relays come back from their encodings. A port that is zero does not, and the
addresses come back in the texts that are made from their bytes.
-/

namespace CardanoSdk.Serialization.PoolCodec

open Lib Cbor Plutus Cardano
open TxConstruction (Hash)

theorem length_utf8Encode_le (text : String) : (utf8Encode text).length ≤ 4 * textLength text := by
  unfold utf8Encode textLength
  induction text.toList with
  | nil => exact Nat.le_refl 0
  | cons char chars ih =>
    have hsize := Char.utf8Size_le_four char
    rw [List.flatMap_cons, List.length_append, String.length_utf8EncodeChar, List.map_cons,
      List.sum_cons]
    split <;> omega

/-- A text that is not refused for its length. -/
def ShortText (text : String) : Prop := textLength text ≤ maxTextLength

section Texts

variable {argName text : String}

theorem checkLength_ok (h : ShortText text) : checkLength argName text = .ok () :=
  if_neg (Nat.not_lt.mpr h)

theorem shortText_of_checkLength (h : checkLength argName text = .ok ()) : ShortText text := by
  unfold checkLength at h
  split at h
  · cases h
  · rename_i hlength
    exact Nat.not_lt.mp hlength

theorem keptItem_shortText (h : ShortText text) :
    KeptItem (writing (writeTextString text)) (reading readTextString) (· = text) := by
  have hlength := length_utf8Encode_le text
  unfold ShortText maxTextLength at h
  exact keptItem_text (by omega)

end Texts

theorem parseInt_toDigits (value : ℕ) : parseInt (Nat.toDigits 10 value) = value := by
  have hdigits : (Nat.toDigits 10 value).takeWhile Char.isDigit = Nat.toDigits 10 value :=
    List.takeWhile_eq_self_iff.mpr fun digit hmem =>
      Nat.isDigit_of_mem_toDigits (by decide) (by decide) hmem
  rw [parseInt, hdigits, Nat.ofDigitChars_ten_toDigits]

def octets (address : String) : List UInt8 :=
  (address.toList.splitOn '.').map fun segment => UInt8.ofNat (parseInt segment)

theorem octets_dotted {bytes : List UInt8} (h : bytes ≠ []) : octets (dotted bytes) = bytes := by
  have hsegments : (dotted bytes).toList.splitOn '.' =
      bytes.map fun octet => Nat.toDigits 10 octet.toNat := by
    rw [dotted, String.toList_intercalate, List.map_map]
    change (List.intercalate ['.'] _).splitOn '.' = _
    have hrepr : bytes.map (String.toList ∘ fun octet : UInt8 => octet.toNat.repr) =
        bytes.map fun octet => Nat.toDigits 10 octet.toNat :=
      List.map_congr_left fun octet _ => Nat.toList_repr
    rw [hrepr]
    refine List.splitOn_intercalate '.' (fun segment hsegment hdot => ?_) ?_
    · obtain ⟨octet, -, rfl⟩ := List.mem_map.mp hsegment
      exact absurd (Nat.isDigit_of_mem_toDigits (by decide) (by decide) hdot) (by decide)
    · exact List.map_eq_nil_iff.not.mpr h
  rw [octets, hsegments, List.map_map]
  refine (List.map_congr_left fun octet _ => ?_).trans (List.map_id bytes)
  change UInt8.ofNat (parseInt (Nat.toDigits 10 octet.toNat)) = octet
  rw [parseInt_toDigits, UInt8.ofNat_toNat]

/-- Four numbers without leading zeros, and dots between them. -/
def IsDotted (address : String) : Prop :=
  ∃ bytes : List UInt8, bytes.length = 4 ∧ address = dotted bytes

/-- What is relied on of the package that reads addresses. -/
structure IpAddressLibrary.Correct (ip : IpAddressLibrary) : Prop where
  /-- An address of the fourth version has four numbers that are each a byte. -/
  fourBytes : ∀ address, ip.isValid4 address = true → ∃ bytes : List UInt8, bytes.length = 4 ∧
    (address.toList.splitOn '.').map parseInt = bytes.map UInt8.toNat
  empty : ip.address6 "" = none
  /-- An address of the sixth version has sixteen bytes, of which zeros in front may be missing. -/
  toBytes : ∀ address value, ip.address6 address = some value →
    (ip.toUnsignedByteArray value).length ≤ 16 ∧ ofBytesBE (ip.toUnsignedByteArray value) = value
  ofBytes : ∀ bytes, bytes.length = 16 → ip.fromUnsignedByteArray bytes = ofBytesBE bytes

section Addresses

variable {ip : IpAddressLibrary} {address : String}

theorem length_octets (hip : ip.Correct) (h : ip.isValid4 address = true) :
    (octets address).length = 4 := by
  obtain ⟨bytes, hlength, hsegments⟩ := hip.fourBytes address h
  have hsame := congrArg List.length hsegments
  rw [List.length_map, List.length_map] at hsame
  rw [octets, List.length_map]
  omega

theorem dotted_octets_iff (hip : ip.Correct) (h : ip.isValid4 address = true) :
    dotted (octets address) = address ↔ IsDotted address := by
  constructor
  · intro hsame
    exact ⟨octets address, length_octets hip h, hsame.symm⟩
  · rintro ⟨bytes, hlength, rfl⟩
    rw [octets_dotted (List.ne_nil_of_length_pos (by omega))]

theorem ofBytesBE_zeros (count : ℕ) (bytes : List UInt8) :
    ofBytesBE (List.replicate count 0 ++ bytes) = ofBytesBE bytes := by
  induction count with
  | zero => rfl
  | succ count ih =>
    rw [← ih, List.replicate_succ]
    rfl

def normalForm (ip : IpAddressLibrary) (address : String) : String :=
  (ip.address6 address).elim address ip.canonicalForm

theorem byteArrayToIPv6String_filled (hip : ip.Correct) {value : ℕ}
    (h : ip.address6 address = some value) :
    ∃ bytes, ipV6StringToByteArray ip address = .ok bytes ∧ bytes.length = 16 ∧
      byteArrayToIPv6String ip bytes = normalForm ip address := by
  obtain ⟨hlength, hvalue⟩ := hip.toBytes address value h
  have hfilled : (List.replicate (16 - (ip.toUnsignedByteArray value).length) 0 ++
      ip.toUnsignedByteArray value).length = 16 := by
    rw [List.length_append, List.length_replicate]
    omega
  refine ⟨_, ?_, hfilled, ?_⟩
  · rw [ipV6StringToByteArray, h]
  · rw [byteArrayToIPv6String, hip.ofBytes _ hfilled, ofBytesBE_zeros, hvalue, normalForm, h]
    rfl

end Addresses

def IsPort (port : ℤ) : Prop := 0 ≤ port ∧ port ≤ 65535

theorem IsPort.isNumber {port : ℤ} (h : IsPort port) : IsNumber port := by
  obtain ⟨hlower, hupper⟩ := h
  exact ⟨⟨by omega, by omega⟩, toNumber_of_natAbs_lt (by omega)⟩

variable {port : Option ℤ}

theorem truthyNumber_mem {value : ℤ} (h : truthyNumber port = some value) :
    port = some value ∧ value ≠ 0 := by
  unfold truthyNumber at h
  split at h
  · cases h
  · rename_i hzero
    refine ⟨h, ?_⟩
    rintro rfl
    exact hzero h

theorem keptItems_port (h : ∀ value, port = some value → IsPort value) :
    KeptItems (writePort port) readPort 1 (· = truthyNumber port) := by
  have hnumber : ∀ value, truthyNumber port = some value → IsNumber value := fun value hvalue =>
    (h value (truthyNumber_mem hvalue).1).isNumber
  have hkept := keptItems_nullable refuses_int fun value hvalue =>
    keptItem_int (hnumber value hvalue).fits
  refine KeptItems.map hkept (fun _ _ => rfl) fun read hread => ?_
  obtain rfl := eq_map_of_rel hread
  rw [Option.map_id']
  cases hport : truthyNumber port with
  | none => rfl
  | some value =>
    have htruthy : truthyNumber (some value) = some value := by
      unfold truthyNumber
      split
      · rename_i hzero
        cases hzero
        exact absurd rfl (truthyNumber_mem hport).2
      · rfl
    rw [htruthy, Option.map_some, (hnumber value hport).exact]

theorem keptItems_address {toByteArray : String → Except String (List UInt8)}
    {ofByteArray : List UInt8 → Except DecodeException String} {back : String → String}
    {address : Option String} (h : ∀ present, address = some present → present ≠ "" ∧
      ∃ bytes, toByteArray present = .ok bytes ∧ bytes.length < 2 ^ 64 ∧
        ofByteArray bytes = .ok (back present)) :
    KeptItems (writeAddress toByteArray address) (readAddress ofByteArray) 1
      (· = address.map back) := by
  have htruthy : truthyText address = address := by
    cases address with
    | none => rfl
    | some present => exact Option.filter_some_pos (decide_eq_true (h present rfl).1)
  rw [writeAddress, htruthy]
  refine (keptItems_nullable (Refuses.bind refuses_byteString) fun present hpresent => ?_).mono
    fun read hread => eq_map_of_rel hread
  obtain ⟨-, bytes, hbytes, hlength, hback⟩ := h present hpresent
  have hmade : (toByteArray present).mapError EncodeException.error = .ok bytes := by
    rw [hbytes]
    rfl
  obtain ⟨item, read, hencodes, hitem, hread⟩ := @keptItem_converted _ _ _ _ _
    (fun bytes => decoding (ofByteArray bytes)) _ (keptItem_byteString hlength)
    fun reader => decoding_ok hback
  exact ⟨item, read, Encodes.encode hmade hencodes, hitem, hread⟩

/-- The ports are numbers of sixteen bits, and the package takes the addresses. -/
def ValidRelay (ip : IpAddressLibrary) : Cardano.Relay → Prop
  | .byAddress relay => (∀ port, relay.port = some port → IsPort port) ∧
      (∀ address, relay.ipv4 = some address → ip.isValid4 address = true) ∧
      ∀ address, relay.ipv6 = some address → ∃ value, ip.address6 address = some value
  | .byName relay => ∀ port, relay.port = some port → IsPort port
  | .byNameMultihost _ => True

/-- The names are not refused for their length. -/
def HasShortName : Cardano.Relay → Prop
  | .byAddress _ => True
  | .byName relay => ShortText relay.hostname
  | .byNameMultihost relay => ShortText relay.dnsName

def relayBack (ip : IpAddressLibrary) : Cardano.Relay → Cardano.Relay
  | .byAddress relay => .byAddress {
      ipv4 := relay.ipv4.map fun address => dotted (octets address)
      ipv6 := relay.ipv6.map (normalForm ip)
      port := truthyNumber relay.port }
  | .byName relay => .byName { relay with port := truthyNumber relay.port }
  | .byNameMultihost relay => .byNameMultihost relay

section Relays

variable {ip : IpAddressLibrary}

theorem singleHostAddr_roundTrips (hip : ip.Correct) {relay : RelayByAddress}
    (h : ValidRelay ip (.byAddress relay)) :
    (singleHostAddrCodec ip).RoundTripsAs 0
      (fun relay' relay => Cardano.Relay.byAddress relay' = relayBack ip (.byAddress relay))
      relay := by
  obtain ⟨hport, hipv4, hipv6⟩ := h
  refine @Codec.roundTripsAs_array _ _ (singleHostAddrCodec ip) 0 _ _ _ 3 _ _ _
    ⟨by decide, by decide⟩ (by decide) rfl rfl (decodesRecord_open (by decide) fun _ => rfl)
    fun cbor => ?_
  change KeptItems _ _ (1 + (1 + 1)) _
  refine KeptItems.append (keptItems_port hport) fun port => ?_
  refine KeptItems.append (@keptItems_address _ _ (fun address => dotted (octets address)) _
    fun address haddress => ?_) fun ipV4 => ?_
  · have hvalid := hipv4 address haddress
    have hlength := length_octets hip hvalid
    refine ⟨?_, octets address, if_pos hvalid, by omega, if_neg (not_not.mpr hlength)⟩
    rintro rfl
    cases hlength
  refine KeptItems.map (@keptItems_address _ _ (normalForm ip) _ fun address haddress => ?_)
    (fun _ _ => rfl) ?_
  · obtain ⟨value, hvalue⟩ := hipv6 address haddress
    obtain ⟨bytes, hbytes, hlength, hback⟩ := byteArrayToIPv6String_filled hip hvalue
    refine ⟨?_, bytes, hbytes, by omega, congrArg Except.ok hback⟩
    rintro rfl
    cases hip.empty.symm.trans hvalue
  · rintro ipV6 rfl rfl rfl
    exact ⟨_, rfl, rfl⟩

variable {dnsName : String}

theorem newSingleHostName_ok {port : Option ℤ} (h : ShortText dnsName) :
    newSingleHostName dnsName port = .ok { dnsName := dnsName, port := port } :=
  bind_of_ok (checkLength_ok h)

theorem newMultiHostName_ok (h : ShortText dnsName) :
    newMultiHostName dnsName = .ok { dnsName := dnsName } :=
  bind_of_ok (checkLength_ok h)

theorem singleHostName_roundTrips {relay : RelayByName} (h : ValidRelay ip (.byName relay))
    (hname : ShortText relay.hostname) :
    singleHostNameCodec.RoundTripsAs 1
      (fun relay' relay => Cardano.Relay.byName relay' = relayBack ip (.byName relay)) relay := by
  refine @Codec.roundTripsAs_array _ _ singleHostNameCodec 1 _ _ _ 2 _ _ _ ⟨by decide, by decide⟩
    (by decide) (newSingleHostName_ok hname) rfl
    (decodesRecord_open (by decide) fun _ => rfl) fun cbor => ?_
  change KeptItems _ _ (1 + 1) _
  refine KeptItems.append (keptItems_port h) fun port => ?_
  have hname' := @keptItem_converted _ _ _ _ _ (fun dnsName => do
      let relay ← decoding (newSingleHostName dnsName port)
      pure { relay with originalBytes := some cbor }) _ (keptItem_shortText hname)
    fun reader => run_bind_ok (decoding_ok (newSingleHostName_ok hname))
  refine hname'.items.mono ?_
  rintro _ rfl rfl
  exact ⟨_, rfl, rfl⟩

theorem multiHostName_roundTrips {relay : RelayByNameMultihost} (hname : ShortText relay.dnsName) :
    multiHostNameCodec.RoundTripsAs 2 Eq relay := by
  refine @Codec.roundTripsAs_array _ _ multiHostNameCodec 2 _ _ _ 1 _ _ _ ⟨by decide, by decide⟩
    (by decide) (newMultiHostName_ok hname) rfl
    (decodesRecord_open (by decide) fun _ => rfl) fun cbor => ?_
  have hname' := @keptItem_converted _ _ _ _ _ (fun dnsName => do
      let relay ← decoding (newMultiHostName dnsName)
      pure { relay with originalBytes := some cbor }) _ (keptItem_shortText hname)
    fun reader => run_bind_ok (decoding_ok (newMultiHostName_ok hname))
  refine hname'.items.mono ?_
  rintro _ rfl
  exact ⟨_, rfl, rfl⟩

theorem relay_roundTrips (hip : ip.Correct) {relay : Cardano.Relay} (h : ValidRelay ip relay)
    (hname : HasShortName relay) :
    (relayCodec ip).RoundTrips (fun relay' relay => relay' = relayBack ip relay) relay := by
  cases relay with
  | byAddress relay =>
    have hkind : IsKindOf (relayCodec ip) (singleHostAddrCodec ip) 0 Cardano.Relay.byAddress
        (fun object => ⟨.singleHostAddr object, none⟩)
        (fun cbor object => ⟨.singleHostAddr object, some cbor⟩) :=
      ⟨fun _ _ hmade => bind_of_ok (bind_of_ok hmade), fun _ _ hwritten => hwritten,
        fun _ _ hpeek hread => (bind_of_ok hpeek).trans (bind_of_ok (bind_of_ok hread)),
        fun _ _ _ hcore => bind_of_ok hcore⟩
    exact (hkind.roundTripsAs ⟨by decide, by decide⟩ (singleHostAddr_roundTrips hip h)
      fun _ hsame => hsame).roundTrips
  | byName relay =>
    have hkind : IsKindOf (relayCodec ip) singleHostNameCodec 1 Cardano.Relay.byName
        (fun object => ⟨.singleHostName object, none⟩)
        (fun cbor object => ⟨.singleHostName object, some cbor⟩) :=
      ⟨fun _ _ hmade => bind_of_ok (bind_of_ok hmade), fun _ _ hwritten => hwritten,
        fun _ _ hpeek hread => (bind_of_ok hpeek).trans (bind_of_ok (bind_of_ok hread)),
        fun _ _ _ hcore => bind_of_ok hcore⟩
    exact (hkind.roundTripsAs ⟨by decide, by decide⟩ (singleHostName_roundTrips h hname)
      fun _ hsame => hsame).roundTrips
  | byNameMultihost relay =>
    have hkind : IsKindOf (relayCodec ip) multiHostNameCodec 2 Cardano.Relay.byNameMultihost
        (fun object => ⟨.multiHostName object, none⟩)
        (fun cbor object => ⟨.multiHostName object, some cbor⟩) :=
      ⟨fun _ _ hmade => bind_of_ok (bind_of_ok hmade), fun _ _ hwritten => hwritten,
        fun _ _ hpeek hread => (bind_of_ok hpeek).trans (bind_of_ok (bind_of_ok hread)),
        fun _ _ _ hcore => bind_of_ok hcore⟩
    exact (hkind.roundTripsAs ⟨by decide, by decide⟩ (multiHostName_roundTrips hname)
      fun _ hsame => congrArg Cardano.Relay.byNameMultihost hsame).roundTrips

end Relays

end CardanoSdk.Serialization.PoolCodec
