import CardanoSdk.Serialization.BodyParts
import CardanoSdk.Serialization.RelayRoundTrip

/-!
Pool parameters come back from their encodings but for what their relays lose:
ports that are zero, and the form of the addresses.
-/

namespace CardanoSdk.Serialization.PoolCodec

open Lib Cbor Plutus Cardano
open BodyCodec (accountAddress_of_fromBech32 fromBech32 IsAccount keptItem_list keptItem_set
  RestoresAll textException)
open TxConstruction (Hash)

theorem poolMetadata_roundTrips {metadata : PoolMetadataJson} (hurl : ShortText metadata.url)
    (hhash : metadata.hash.length < 2 ^ 64) : poolMetadataCodec.RoundTrips Eq metadata := by
  have hmade : newPoolMetadata metadata.url metadata.hash =
      .ok { url := metadata.url, hash := metadata.hash } := bind_of_ok (checkLength_ok hurl)
  have hparts : KeptItems (do
      writing (writeTextString metadata.url)
      writing (writeByteString metadata.hash)) readMetadataParts 2
      (· = (metadata.url, metadata.hash)) := by
    change KeptItems _ _ (1 + 1) _
    refine KeptItems.exact (keptItem_shortText hurl) ?_
    refine KeptItems.last (keptItem_byteString hhash) (fun _ _ => rfl) ?_
    rintro hash rfl
    rfl
  obtain ⟨content, cbor, parts, rfl, -, hitems, hcbor, hdecoded⟩ := record_survives
    (@decodesRecord_arrayOf _ _ (fun _ => readMetadataParts) _ (unexpectedLength 2) (by decide)
      fun _ => rfl) (by decide) fun _ => hparts
  refine ⟨_, _, hmade, hcbor, dataItem_fixedArray (by decide) hitems, fun hlength => ?_⟩
  obtain ⟨hread, rfl⟩ := hdecoded hlength
  exact ⟨_, metadata, (bind_of_ok hread).trans (bind_of_ok hmade), rfl, rfl⟩

theorem refuses_poolMetadata : Refuses (readPart poolMetadataCodec.fromCbor) := by
  have hrefused : (poolMetadataCodec.fromCbor nullBytes).toOption = none := by decide
  refine refuses_part fun value hvalue => ?_
  rw [hvalue] at hrefused
  cases hrefused

theorem unitInterval_roundTrips {fraction : Fraction} (hnumerator : IsNumber fraction.numerator)
    (hdenominator : IsNumber fraction.denominator) : unitIntervalCodec.RoundTrips Eq fraction := by
  have hvalid : UnitInterval.Valid ⟨fraction.numerator, fraction.denominator, none⟩ :=
    ⟨hnumerator.fits, hdenominator.fits, rfl⟩
  refine ⟨_, _, rfl, UnitInterval.toCbor_ok hvalid, dataItem_interval hvalid, fun hlength =>
    ⟨_, fraction, UnitInterval.fromCbor_ok hvalid hlength, ?_, rfl⟩⟩
  change Except.ok (Fraction.mk (toNumber fraction.numerator) (toNumber fraction.denominator)) = _
  rw [hnumerator.exact, hdenominator.exact]

section Owners

variable {library : PoolLibrary}

/-- A key that owns a pool, on the network of the account that it rewards. -/
def IsOwner (library : PoolLibrary) (rewardAccount owner : RewardAccountText) : Prop :=
  ∃ props rewardProps, fromBech32 library.text owner = .ok props ∧
    fromBech32 library.text rewardAccount = .ok rewardProps ∧ props.type = .rewardKey ∧
    props.networkId = rewardProps.networkId ∧ props.toBech32 library.text = .ok owner ∧
    library.checkRewardAccount owner = .ok ()

theorem owner_back {rewardAccount owner : RewardAccountText} {rewardProps : AddressProps}
    (h : IsOwner library rewardAccount owner)
    (hreward : fromBech32 library.text rewardAccount = .ok rewardProps) :
    ∃ keyHash, ownerKeyHash library owner = .ok keyHash ∧ keyHash.length = 28 ∧
      createRewardAccount library keyHash rewardProps.networkId = .ok owner := by
  obtain ⟨props, rewardProps', hprops, hreward', htype, hnetwork, htext, hcheck⟩ := h
  cases hreward.symm.trans hreward'
  obtain ⟨bytes, haddress⟩ := accountAddress_of_fromBech32 hprops (Or.inl htype)
  obtain ⟨network, hash, hlength, hparts⟩ := haddress.parts
  rw [htype, if_neg (by decide)] at hparts
  subst hparts
  refine ⟨hash, ?_, hlength, ?_⟩
  · rw [ownerKeyHash, hprops]
    exact hash28_ok hlength
  · rw [createRewardAccount, hash28ByteBase16_ok hlength, ← hnetwork]
    refine (bind_of_ok htext).trans ?_
    rw [hcheck]
    rfl

end Owners

/-- Numbers in range, texts that the packages made and addresses that they take. -/
structure ValidPool (library : PoolLibrary) (core : PoolParameters) : Prop where
  id : ∃ keyHash, library.text.bech32Decode core.id = some keyHash ∧ keyHash.length = 28 ∧
    library.text.bech32Encode "pool" keyHash = some core.id
  vrf : core.vrf.length = 32
  pledge : FitsHead core.pledge
  cost : FitsHead core.cost
  numerator : IsNumber core.margin.numerator
  denominator : IsNumber core.margin.denominator
  rewardAccount : IsAccount library.text core.rewardAccount
  ownerCount : core.owners.length < 2 ^ 64
  owners : ∀ owner ∈ core.owners, IsOwner library core.rewardAccount owner
  relayCount : core.relays.length < 2 ^ 64
  relays : ∀ relay ∈ core.relays, ValidRelay library.ip relay
  metadata : ∀ metadata, core.metadataJson = some metadata → metadata.hash.length < 2 ^ 64

/-- Neither a name nor the location of the metadata is refused for its length. -/
structure HasShortTexts (core : PoolParameters) : Prop where
  names : ∀ relay ∈ core.relays, HasShortName relay
  url : ∀ metadata, core.metadataJson = some metadata → ShortText metadata.url

def poolBack (ip : IpAddressLibrary) (core : PoolParameters) : PoolParameters :=
  { core with relays := core.relays.map (relayBack ip) }

section Params

variable {library : PoolLibrary} {inConwayEra : Bool} {core : PoolParameters}

def PoolRestores (library : PoolLibrary) (core : PoolParameters) (params : PoolParams) : Prop :=
  params.toCore library = .ok (poolBack library.ip core)

theorem eq_of_rel {α : Type} {value' value : Option α} (h : Option.Rel Eq value' value) :
    value' = value := by
  cases h with
  | none => rfl
  | some hsame => rw [hsame]

theorem keptItems_flattened (inConwayEra : Bool) (hip : library.ip.Correct)
    (hvalid : ValidPool library core) (hshort : HasShortTexts core) :
    ∃ params, PoolParams.fromCore library core = .ok params ∧ params.originalBytes = none ∧
      KeptItems (params.writeFlattened library inConwayEra) (PoolParams.readFlattened library) 9
        (PoolRestores library core) := by
  obtain ⟨operator, hdecoded, hoperator, hencoded⟩ := hvalid.id
  obtain ⟨rewardProps, hprops, hreward, htext⟩ := hvalid.rewardAccount
  obtain ⟨rewardBytes, haddress⟩ := accountAddress_of_fromBech32 hprops hreward
  obtain ⟨margin, hmargin, hkeptMargin⟩ := keptItem_codec
    (unitInterval_roundTrips hvalid.numerator hvalid.denominator)
  obtain ⟨keyHashes, hkeyHashes, howners⟩ := mapM_ok_forall₂ fun owner hmem =>
    owner_back (hvalid.owners owner hmem) hprops
  have hcount : keyHashes.length < 2 ^ 64 := by
    have hsame := howners.length_eq
    have hfew := hvalid.ownerCount
    omega
  obtain ⟨set, hset, hkeptSet⟩ := @keptItem_set _ _ hashCodec Eq keyHashes inConwayEra hcount
    fun keyHash hmem => by
      obtain ⟨_, -, hlength, -⟩ := exists_of_forall₂_right howners hmem
      exact hash_roundTrips (by omega)
  obtain ⟨relays, hrelays, hkeptRelays⟩ := keptItem_list hvalid.relayCount fun relay hmem =>
    relay_roundTrips hip (hvalid.relays relay hmem) (hshort.names relay hmem)
  obtain ⟨metadata, hmetadata, hkeptMetadata⟩ := keptItems_optionalPart refuses_poolMetadata
    fun metadata hmetadata => poolMetadata_roundTrips (hshort.url metadata hmetadata)
      (hvalid.metadata metadata hmetadata)
  have hoperatorHash : poolIdToKeyHash library core.id = .ok operator := by
    rw [poolIdToKeyHash, hdecoded]
    exact hash28_ok hoperator
  have hrewardProps : (fromBech32 library.text core.rewardAccount).mapError textException =
      .ok rewardProps := by
    rw [hprops]
    rfl
  refine ⟨_, (bind_of_ok hoperatorHash).trans <| (bind_of_ok hmargin).trans <|
    (bind_of_ok hrewardProps).trans <| (bind_of_ok hkeyHashes).trans <| (bind_of_ok hset).trans <|
    (bind_of_ok hrelays).trans <| bind_of_ok hmetadata, rfl, ?_⟩
  change KeptItems _ _ (1 + (1 + (1 + (1 + (1 + (1 + (1 + (1 + 1)))))))) _
  refine KeptItems.exact (keptItem_byteString (show operator.length < 2 ^ 64 by omega)) ?_
  refine KeptItems.decode (hash28_ok hoperator) ?_
  have hvrf := hvalid.vrf
  refine KeptItems.exact (keptItem_byteString (show core.vrf.length < 2 ^ 64 by omega)) ?_
  refine KeptItems.decode (if_pos hvrf) ?_
  refine KeptItems.exact (keptItem_int hvalid.pledge) ?_
  refine KeptItems.exact (keptItem_int hvalid.cost) ?_
  refine KeptItems.cons hkeptMargin fun margin' => ?_
  refine KeptItems.encode (show required (asReward rewardProps) = .ok rewardProps from ?_) ?_
  · rw [asReward, if_pos hreward]
    rfl
  refine KeptItems.encode haddress.written ?_
  have hlength := haddress.length
  refine KeptItems.exact (keptItem_byteString (show rewardBytes.length < 2 ^ 64 by omega)) ?_
  refine KeptItems.decode haddress.read ?_
  refine KeptItems.cons hkeptSet fun owners' => ?_
  refine KeptItems.cons hkeptRelays fun relays' => ?_
  refine KeptItems.map hkeptMetadata (fun _ _ => rfl) ?_
  rintro metadata' ⟨metadataCore, hmetadataCore, hsameMetadata⟩
    ⟨relaysCore, hrelaysCore, hsameRelays⟩ ⟨ownersCore, hownersCore, hsameOwners⟩
    ⟨marginCore, hmarginCore, rfl⟩
  rw [List.forall₂_eq_eq_eq] at hsameOwners
  subst hsameOwners
  obtain rfl := eq_of_rel hsameMetadata
  have hrelaysBack : relaysCore = core.relays.map (relayBack library.ip) := by
    rw [← List.forall₂_eq_eq_eq, List.forall₂_map_right_iff]
    exact hsameRelays
  subst hrelaysBack
  have hid : poolIdOfKeyHash library operator = .ok core.id := by
    rw [poolIdOfKeyHash, hencoded]
  have hownersBack : ownersCore.mapM (fun keyHash =>
      createRewardAccount library keyHash rewardProps.networkId) = .ok core.owners :=
    mapM_of_forall₂ (howners.flip.imp fun _ _ howner => howner.2)
  change (required (asReward rewardProps) >>= _) = _
  rw [asReward, if_pos hreward]
  exact (bind_of_ok hid).trans <| (bind_of_ok hmarginCore).trans <|
    (bind_of_ok hownersCore).trans <| (bind_of_ok hownersBack).trans <|
    (bind_of_ok hrelaysCore).trans <| (bind_of_ok htext).trans <| bind_of_ok hmetadataCore

theorem poolParams_roundTrip (hip : library.ip.Correct) (hvalid : ValidPool library core)
    (hshort : HasShortTexts core) :
    (poolParamsCodec library inConwayEra).RoundTrips
      (fun core' core => core' = poolBack library.ip core) core := by
  obtain ⟨params, hmade, huncached, hkept⟩ := keptItems_flattened inConwayEra hip hvalid hshort
  have hwritten : params.toCbor library inConwayEra = encodeAsHex (do
      writing (writeStartArray (some PoolParams.subgroupCount))
      params.writeFlattened library inConwayEra) := by
    rw [PoolParams.toCbor, huncached, cachedOr_none]
  refine @Codec.roundTrips_array _ _ (poolParamsCodec library inConwayEra) _ _ _ _ _ _ hmade
    hwritten (decodesRecord_open (by decide) fun _ => rfl) (by decide) fun cbor => ?_
  exact KeptItems.map hkept (fun _ _ => rfl) fun decoded hcore => ⟨_, hcore, rfl⟩

def normalRelay (ip : IpAddressLibrary) : Cardano.Relay → Cardano.Relay
  | .byAddress relay => .byAddress { relay with ipv6 := relay.ipv6.map (normalForm ip) }
  | .byName relay => .byName relay
  | .byNameMultihost relay => .byNameMultihost relay

/-- The same parameters up to the normal form of addresses of the sixth version. -/
def SamePool (ip : IpAddressLibrary) (core' core : PoolParameters) : Prop :=
  core' = { core with relays := core.relays.map (normalRelay ip) }

def ComesBack (library : PoolLibrary) (inConwayEra : Bool) (core : PoolParameters) : Prop :=
  ∃ params cbor decoded core', PoolParams.fromCore library core = .ok params ∧
    params.toCbor library inConwayEra = .ok cbor ∧ PoolParams.fromCbor library cbor = .ok decoded ∧
    decoded.toCore library = .ok core' ∧ SamePool library.ip core' core

/-- A port is not zero, and an address of the fourth version is plain. -/
def KeptRelay : Cardano.Relay → Prop
  | .byAddress relay => relay.port ≠ some 0 ∧
      ∀ address, relay.ipv4 = some address → IsDotted address
  | .byName relay => relay.port ≠ some 0
  | .byNameMultihost _ => True

theorem truthyNumber_eq_iff {port : Option ℤ} : truthyNumber port = port ↔ port ≠ some 0 := by
  constructor
  · rintro hsame rfl
    cases hsame
  · intro hne
    unfold truthyNumber
    split
    · exact absurd rfl hne
    · rfl

theorem relayBack_eq_iff (hip : library.ip.Correct) {relay : Cardano.Relay}
    (h : ValidRelay library.ip relay) :
    relayBack library.ip relay = normalRelay library.ip relay ↔ KeptRelay relay := by
  cases relay with
  | byAddress relay =>
    have haddress : relay.ipv4.map (fun address => dotted (octets address)) = relay.ipv4 ↔
        ∀ address, relay.ipv4 = some address → IsDotted address := by
      cases hipv4 : relay.ipv4 with
      | none => exact ⟨fun _ _ hsome => (by cases hsome), fun _ => rfl⟩
      | some address =>
        have hdotted := dotted_octets_iff hip (h.2.1 address hipv4)
        rw [Option.map_some, Option.some_inj, hdotted]
        exact ⟨fun hplain _ hsome => Option.some_inj.mp hsome ▸ hplain,
          fun hplain => hplain address rfl⟩
    rw [KeptRelay, ← truthyNumber_eq_iff, ← haddress, relayBack, normalRelay,
      Cardano.Relay.byAddress.injEq, RelayByAddress.mk.injEq]
    exact ⟨fun hsame => ⟨hsame.2.2, hsame.1⟩, fun hkept => ⟨hkept.2, rfl, hkept.1⟩⟩
  | byName relay =>
    rw [KeptRelay, ← truthyNumber_eq_iff, relayBack, normalRelay, Cardano.Relay.byName.injEq,
      RelayByName.mk.injEq]
    exact ⟨fun hsame => hsame.2, fun hkept => ⟨rfl, hkept⟩⟩
  | byNameMultihost relay => exact ⟨fun _ => trivial, fun _ => rfl⟩

theorem hasShortTexts_of_fromCore {params : PoolParams}
    (h : PoolParams.fromCore library core = .ok params) : HasShortTexts core := by
  obtain ⟨_, -, h⟩ := bind_ok h
  obtain ⟨_, -, h⟩ := bind_ok h
  obtain ⟨_, -, h⟩ := bind_ok h
  obtain ⟨_, -, h⟩ := bind_ok h
  obtain ⟨_, -, h⟩ := bind_ok h
  obtain ⟨relays, hrelays, h⟩ := bind_ok h
  obtain ⟨metadata, hmetadata, -⟩ := bind_ok h
  constructor
  · intro relay hmem
    obtain ⟨_, hrelay⟩ := mapM_ok_mem hrelays relay hmem
    obtain ⟨_, hvalue, -⟩ := bind_ok hrelay
    cases relay with
    | byAddress relay => trivial
    | byName relay =>
      obtain ⟨_, hname, -⟩ := bind_ok hvalue
      obtain ⟨⟨⟩, hlength, -⟩ := bind_ok hname
      exact shortText_of_checkLength hlength
    | byNameMultihost relay =>
      obtain ⟨_, hname, -⟩ := bind_ok hvalue
      obtain ⟨⟨⟩, hlength, -⟩ := bind_ok hname
      exact shortText_of_checkLength hlength
  · intro value hvalue
    rw [hvalue] at hmetadata
    obtain ⟨_, hmade, -⟩ := bind_ok hmetadata
    obtain ⟨⟨⟩, hlength, -⟩ := bind_ok hmade
    exact shortText_of_checkLength hlength

theorem samePool_poolBack_iff (hip : library.ip.Correct) (hvalid : ValidPool library core) :
    SamePool library.ip (poolBack library.ip core) core ↔
      ∀ relay ∈ core.relays, KeptRelay relay := by
  rw [SamePool, poolBack, PoolParameters.mk.injEq]
  constructor
  · rintro ⟨-, -, -, -, -, -, hrelays, -⟩ relay hmem
    exact (relayBack_eq_iff hip (hvalid.relays relay hmem)).mp
      (List.map_inj_left.mp hrelays relay hmem)
  · intro hkept
    refine ⟨rfl, rfl, rfl, rfl, rfl, rfl, List.map_inj_left.mpr fun relay hmem => ?_, rfl, rfl⟩
    exact (relayBack_eq_iff hip (hvalid.relays relay hmem)).mpr (hkept relay hmem)

theorem ComesBack.kept (hip : library.ip.Correct) (hvalid : ValidPool library core)
    (hfits : (poolParamsCodec library inConwayEra).Fits core)
    (h : ComesBack library inConwayEra core) :
    (∀ relay ∈ core.relays, KeptRelay relay) ∧ HasShortTexts core := by
  obtain ⟨params, cbor, decoded, core', hmade, hwritten, hread, hcore, hback⟩ := h
  have hshort := hasShortTexts_of_fromCore hmade
  obtain ⟨params', cbor', hmade', hwritten', -, hread'⟩ :=
    @poolParams_roundTrip _ inConwayEra _ hip hvalid hshort
  cases hmade.symm.trans hmade'
  cases hwritten.symm.trans hwritten'
  obtain ⟨decoded', core'', hread', hcore', rfl⟩ := hread' (hfits _ _ hmade hwritten)
  cases hread.symm.trans hread'
  cases hcore.symm.trans hcore'
  exact ⟨(samePool_poolBack_iff hip hvalid).mp hback, hshort⟩

/-- Valid parameters come back exactly if no relay has the port zero, addresses
of the fourth version are plain, and no name and no location is too long. -/
theorem poolParams_come_back_iff (inConwayEra : Bool) (hip : library.ip.Correct)
    (hvalid : ValidPool library core) (hfits : (poolParamsCodec library inConwayEra).Fits core) :
    ComesBack library inConwayEra core ↔
      (∀ relay ∈ core.relays, KeptRelay relay) ∧ HasShortTexts core := by
  refine ⟨ComesBack.kept hip hvalid hfits, ?_⟩
  rintro ⟨hkept, hshort⟩
  obtain ⟨params, cbor, hmade, hwritten, -, hread⟩ :=
    @poolParams_roundTrip _ inConwayEra _ hip hvalid hshort
  obtain ⟨decoded, core', hread, hcore, rfl⟩ := hread (hfits _ _ hmade hwritten)
  exact ⟨params, cbor, decoded, _, hmade, hwritten, hread, hcore,
    (samePool_poolBack_iff hip hvalid).mpr hkept⟩

end Params

def loopbackLibrary : IpAddressLibrary where
  isValid4 address := (address.toList.splitOn '.').length = 4 ∧
    (address.toList.splitOn '.').all fun segment => parseInt segment < 256
  address6 address := if address = "::1" then some 1 else none
  toUnsignedByteArray value := [UInt8.ofNat value]
  fromUnsignedByteArray := ofBytesBE
  canonicalForm _ := "0000:0000:0000:0000:0000:0000:0000:0001"

theorem loopbackLibrary_correct : loopbackLibrary.Correct where
  fourBytes address h := by
    obtain ⟨hlength, hsmall⟩ := of_decide_eq_true h
    refine ⟨octets address, ?_, ?_⟩
    · rw [octets, List.length_map, hlength]
    · rw [octets, List.map_map]
      refine List.map_congr_left fun segment hmem => ?_
      have hsegment := of_decide_eq_true (List.all_eq_true.mp hsmall segment hmem)
      exact (Nat.mod_eq_of_lt hsegment).symm
  empty := rfl
  toBytes address value h := by
    change (if address = "::1" then some 1 else none) = some value at h
    split at h
    · cases h
      exact ⟨by decide, rfl⟩
    · cases h
  ofBytes _ _ := rfl

def zeroHash : Hash := List.replicate 28 0

def zeroPoolText : PoolIdText := "pool1qqqqqqqqqqqqqqqqqqqqqqqqqqqqqqqqqqqqqqqqqqqqq8a7a2d"

def zeroAccountText : RewardAccountText :=
  "stake1uyqqqqqqqqqqqqqqqqqqqqqqqqqqqqqqqqqqqqqqqqqqqqq28lj8u"

def zeroEncodings : TextEncodings where
  bech32Encode hrp bytes :=
    if hrp = "pool" ∧ bytes = zeroHash then some zeroPoolText
    else if hrp = "stake" ∧ bytes = 0xe1 :: zeroHash then some zeroAccountText else none
  bech32Decode text :=
    if text = zeroPoolText then some zeroHash
    else if text = zeroAccountText then some (0xe1 :: zeroHash) else none
  base58Encode _ := ""
  base58Decode _ := none
  crc32 _ := 0

def zeroLibrary : PoolLibrary where
  ip := loopbackLibrary
  text := zeroEncodings
  checkRewardAccount text := if text = zeroAccountText then .ok () else .error ""

/-- A relay of every kind, the first with this port. -/
def relayedPool (port : ℤ) : PoolParameters where
  id := zeroPoolText
  rewardAccount := zeroAccountText
  pledge := 1000000000
  cost := 340000000
  margin := ⟨1, 20⟩
  metadataJson := some ⟨List.replicate 32 7, "https://pool.example/m"⟩
  relays := [.byAddress ⟨some "10.0.0.255", some "::1", some port⟩,
    .byName ⟨"relay.example", some 3001⟩, .byNameMultihost ⟨"relays.example"⟩]
  owners := [zeroAccountText]
  vrf := List.replicate 32 5

theorem zeroAccount_props : BodyCodec.fromBech32 zeroEncodings zeroAccountText = .ok {
    type := .rewardKey
    networkId := some 1
    paymentPart := some ⟨.keyHash, zeroHash⟩ } := by
  decide

theorem zeroAccount_text : AddressProps.toBech32 zeroEncodings {
    type := .rewardKey
    networkId := some 1
    paymentPart := some ⟨.keyHash, zeroHash⟩ } = .ok zeroAccountText := by
  decide

theorem zeroPool_text : zeroEncodings.bech32Decode zeroPoolText = some zeroHash ∧
    zeroEncodings.bech32Encode "pool" zeroHash = some zeroPoolText := by
  decide

theorem isOwner_zeroAccount : IsOwner zeroLibrary zeroAccountText zeroAccountText := by
  refine ⟨_, _, zeroAccount_props, zeroAccount_props, rfl, rfl, zeroAccount_text, ?_⟩
  decide

theorem validPool_relayed {port : ℤ} (h : IsPort port) :
    ValidPool zeroLibrary (relayedPool port) where
  id := ⟨zeroHash, zeroPool_text.1, rfl, zeroPool_text.2⟩
  vrf := rfl
  pledge := (show IsKind 1000000000 from ⟨by decide, by decide⟩).isNumber.fits
  cost := (show IsKind 340000000 from ⟨by decide, by decide⟩).isNumber.fits
  numerator := (show IsKind 1 from ⟨by decide, by decide⟩).isNumber
  denominator := (show IsKind 20 from ⟨by decide, by decide⟩).isNumber
  rewardAccount := ⟨_, zeroAccount_props, Or.inl rfl, zeroAccount_text⟩
  ownerCount := show 1 < 2 ^ 64 by decide
  owners := List.forall_mem_singleton.mpr isOwner_zeroAccount
  relayCount := show 3 < 2 ^ 64 by decide
  relays := by
    refine List.forall_mem_cons.mpr ⟨⟨?_, ?_, ?_⟩, List.forall_mem_cons.mpr ⟨?_,
      List.forall_mem_singleton.mpr trivial⟩⟩
    · rintro _ hport
      cases hport
      exact h
    · rintro _ haddress
      cases haddress
      decide
    · rintro _ haddress
      cases haddress
      exact ⟨1, by decide⟩
    · rintro _ hport
      cases hport
      exact ⟨by decide, by decide⟩
  metadata := by
    rintro _ hmetadata
    cases hmetadata
    decide

theorem hasShortTexts_relayed (port : ℤ) : HasShortTexts (relayedPool port) where
  names := by
    refine List.forall_mem_cons.mpr ⟨trivial, List.forall_mem_cons.mpr ⟨?_,
      List.forall_mem_singleton.mpr ?_⟩⟩
    · exact (by decide : textLength "relay.example" ≤ maxTextLength)
    · exact (by decide : textLength "relays.example" ≤ maxTextLength)
  url := by
    rintro _ hmetadata
    cases hmetadata
    exact (by decide : textLength "https://pool.example/m" ≤ maxTextLength)

/-- With a port that is not zero the pool comes back. -/
theorem poolParams_come_back_relayed : ComesBack zeroLibrary true (relayedPool 3001) := by
  refine (poolParams_come_back_iff true loopbackLibrary_correct
    (validPool_relayed ⟨by decide, by decide⟩)
    (@Codec.fits_of_encoded _ _ (poolParamsCodec zeroLibrary true) _ 267 (by decide +kernel)
      (by decide))).mpr ⟨?_, hasShortTexts_relayed 3001⟩
  refine List.forall_mem_cons.mpr ⟨⟨by decide, ?_⟩, List.forall_mem_cons.mpr ⟨?_,
    List.forall_mem_singleton.mpr trivial⟩⟩
  · rintro _ haddress
    cases haddress
    exact ⟨[10, 0, 0, 255], rfl, by decide⟩
  · exact (by decide : (some 3001 : Option ℤ) ≠ some 0)

/-- The port zero is lost. -/
theorem poolParams_lose_port_zero : ValidPool zeroLibrary (relayedPool 0) ∧
    HasShortTexts (relayedPool 0) ∧ ¬ ComesBack zeroLibrary true (relayedPool 0) := by
  have hvalid : ValidPool zeroLibrary (relayedPool 0) := validPool_relayed ⟨by decide, by decide⟩
  have hfits : (poolParamsCodec zeroLibrary true).Fits (relayedPool 0) :=
    @Codec.fits_of_encoded _ _ (poolParamsCodec zeroLibrary true) _ 265 (by decide +kernel)
      (by decide)
  refine ⟨hvalid, hasShortTexts_relayed 0, fun hcomes => ?_⟩
  have hkept := (hcomes.kept loopbackLibrary_correct hvalid hfits).1 _ List.mem_cons_self
  exact hkept.1 rfl

end CardanoSdk.Serialization.PoolCodec
