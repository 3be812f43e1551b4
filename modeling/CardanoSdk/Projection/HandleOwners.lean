import CardanoSdk.Projection.HandleStore

/-!
Who holds the handles of a block once `storeHandles` is through. The loop ends at a handle
whose parent is not there: whatever is listed behind it stays as it was.
-/

namespace CardanoSdk.Projection

open Lib
open InputSelection (AssetId PaymentAddress)

/-- The column `cardano_address` of the handle, if the handle is stored. -/
def storedOwner (tables : ProjectionTables) (handle : String) : Option (Option PaymentAddress) :=
  (tables.handles.get? handle).map HandleEntity.cardanoAddress

def HasParent (known : List String) (handle : HandleWithTotalSupply) : Prop :=
  ∀ parent ∈ handle.parentHandle, parent ∈ known

instance (known : List String) (handle : HandleWithTotalSupply) :
    Decidable (HasParent known handle) :=
  inferInstanceAs (Decidable (∀ parent ∈ handle.parentHandle, parent ∈ known))

/-- The names that are stored after the handle, when it is settled on its own. -/
def remember (known : List String) (handle : HandleWithTotalSupply) : List String :=
  if handle.totalSupply = 1 ∧ HasParent known handle then handle.handle :: known else known

/-- What the handle is to be, when these names are stored at its turn. -/
structure Settled (tables tables' : ProjectionTables) (known : List String)
    (handle : HandleWithTotalSupply) : Prop where
  owned : handle.totalSupply = 1 → HasParent known handle →
    storedOwner tables' handle.handle =
      some (ownerOf handle.toHandleOwnership tables).cardanoAddress
  orphaned : handle.totalSupply = 1 → ¬ HasParent known handle →
    storedOwner tables' handle.handle = storedOwner tables handle.handle
  invalidated : handle.totalSupply ≠ 1 → (storedOwner tables' handle.handle).join = none

/-- Each handle of the list is settled, whatever the others are. -/
def AllSettled (tables tables' : ProjectionTables) :
    List String → List HandleWithTotalSupply → Prop
  | _, [] => True
  | known, handle :: handles =>
    Settled tables tables' known handle ∧
      AllSettled tables tables' (remember known handle) handles

/-- What is listed behind a handle without its parent is settled already. -/
def NothingLost (tables : ProjectionTables) : List String → List HandleWithTotalSupply → Prop
  | _, [] => True
  | known, handle :: handles =>
    if handle.totalSupply = 1 ∧ ¬ HasParent known handle then
      AllSettled tables tables known handles
    else NothingLost tables (remember known handle) handles

section Congruence

variable {tables tables' tables'' : ProjectionTables} {known : List String}

theorem settled_congr {handle : HandleWithTotalSupply}
    (h : storedOwner tables' handle.handle = storedOwner tables'' handle.handle) :
    Settled tables tables' known handle ↔ Settled tables tables'' known handle := by
  constructor
  · rintro ⟨howned, horphaned, hinvalidated⟩
    rw [h] at howned horphaned hinvalidated
    exact ⟨howned, horphaned, hinvalidated⟩
  · rintro ⟨howned, horphaned, hinvalidated⟩
    rw [← h] at howned horphaned hinvalidated
    exact ⟨howned, horphaned, hinvalidated⟩

theorem allSettled_congr {handles : List HandleWithTotalSupply}
    (h : ∀ handle ∈ handles,
      storedOwner tables' handle.handle = storedOwner tables'' handle.handle) :
    AllSettled tables tables' known handles ↔ AllSettled tables tables'' known handles := by
  induction handles generalizing known with
  | nil => exact Iff.rfl
  | cons handle handles ih =>
    exact and_congr (settled_congr (h handle List.mem_cons_self))
      (ih fun other hother => h other (List.mem_cons_of_mem _ hother))

end Congruence

/-- One turn of the loop: the handle has its owner now, and other handles keep theirs. -/
structure Turn (tables tables' : ProjectionTables) (handle : String)
    (owner : Option (Option PaymentAddress)) : Prop where
  database : tables'.database = tables.database
  self : storedOwner tables' handle = owner
  others : ∀ {name}, name ≠ handle → storedOwner tables' name = storedOwner tables name

theorem keeps_updateDefaults {setDefault : HandleEntity → HandleEntity}
    {sorted : List DefaultHandleParams} {handle : String} {handles : JsMap String HandleEntity}
    {name : String} (h : ∀ row, (setDefault row).cardanoAddress = row.cardanoAddress) :
    ((updateDefaults sorted handle setDefault handles).get? name).map
      HandleEntity.cardanoAddress = (handles.get? name).map HandleEntity.cardanoAddress := by
  rw [updateDefaults]
  split
  · rw [JsMap.get?_updateWhere, Option.map_map]
    apply congrFun (congrArg Option.map (funext fun row => ?_))
    change HandleEntity.cardanoAddress (ite _ _ _) = _
    split
    · exact h row
    · rfl
  · rfl

section Turns

variable {hasStakeCredential : PaymentAddress → Bool} {handleMetadata : List HandleMetadata}
  {tables tables' : ProjectionTables}

theorem keeps_defaults (handle : String) (isOG : Bool) (address : PaymentAddress)
    (name : String) :
    storedOwner (getDefaultInWalletAndUpdateOtherHandles hasStakeCredential handle isOG address
      tables).2 name = storedOwner tables name := by
  rw [getDefaultInWalletAndUpdateOtherHandles, storedOwner, storedOwner]
  dsimp only
  rw [keeps_updateDefaults, keeps_updateDefaults]
  · exact fun _ => rfl
  · exact fun _ => rfl

variable {handle : HandleOwnership}

theorem turn_upsert {owner : HandleOwner} {defaultInWallet : DefaultInWallet}
    (h : upsertHandle handle owner defaultInWallet tables = .ok tables') :
    Turn tables tables' handle.handle (some owner.cardanoAddress) := by
  rw [upsertHandle] at h
  split at h
  · cases h
  · split at h
    · cases h
    · cases h
      refine ⟨rfl, ?_, fun hname => ?_⟩
      · rw [storedOwner, JsMap.get?_set, if_pos rfl]
        rfl
      · rw [storedOwner, JsMap.get?_set, if_neg hname]
        rfl

theorem turn_owned
    (h : storeOwnedHandle hasStakeCredential handleMetadata handle tables = .ok tables') :
    Turn tables tables' handle.handle (some (ownerOf handle tables).cardanoAddress) := by
  rw [storeOwnedHandle] at h
  cases howner : (ownerOf handle tables).cardanoAddress with
  | none =>
    simp only [howner, Option.elim_none] at h
    rw [← howner]
    exact turn_upsert h
  | some address =>
    simp only [howner, Option.elim_some] at h
    rw [← howner]
    have hturn := turn_upsert h
    exact ⟨hturn.database, hturn.self, fun hname =>
      (hturn.others hname).trans (keeps_defaults _ _ _ _)⟩

theorem turn_invalidated (handle : String) (tables : ProjectionTables) :
    Turn tables { tables with
      handles := tables.handles.updateWhere (fun key _ => key = handle)
        fun row => { row with cardanoAddress := none } } handle
      ((storedOwner tables handle).map fun _ => none) := by
  refine ⟨rfl, ?_, fun hname => ?_⟩
  · rw [storedOwner, storedOwner, JsMap.get?_updateWhere]
    cases tables.handles.get? handle with
    | none => rfl
    | some row => simp
  · rw [storedOwner, storedOwner, JsMap.get?_updateWhere]
    simp [hname]

end Turns

section Run

variable {hasStakeCredential : PaymentAddress → Bool} {handleMetadata : List HandleMetadata}
  {tables before tables' : ProjectionTables} {known : List String}
  {handles : List HandleWithTotalSupply}

theorem ownerOf_congr (h : before.database = tables.database) (handle : HandleOwnership) :
    ownerOf handle before = ownerOf handle tables := by
  simp only [ownerOf, getOwner, ownerRows, h]

def Knows (known : List String) (tables : ProjectionTables) : Prop :=
  ∀ name, name ∈ known ↔ (storedOwner tables name).isSome

theorem has_iff_knows (hknows : Knows known before) (name : String) :
    before.handles.has name = true ↔ name ∈ known := by
  rw [hknows, storedOwner, Option.isSome_map]
  rfl

theorem orphan_iff (hknows : Knows known before) (handle : HandleWithTotalSupply) :
    (handle.parentHandle.any fun parent => !before.handles.has parent) = true ↔
      ¬ HasParent known handle := by
  rw [HasParent]
  cases handle.parentHandle with
  | none => simp
  | some parent => simp [← has_iff_knows hknows]

variable {handle : HandleWithTotalSupply}

theorem knows_owned {owner : Option PaymentAddress} (hknows : Knows known before)
    (hstored : handle.totalSupply = 1 ∧ HasParent known handle)
    (hturn : Turn before tables' handle.handle (some owner)) :
    Knows (remember known handle) tables' := by
  intro name
  rw [remember, if_pos hstored, List.mem_cons]
  by_cases hname : name = handle.handle
  · subst hname
    simp [hturn.self]
  · rw [hturn.others hname, ← hknows name]
    simp [hname]

theorem knows_invalidated (hknows : Knows known before) (hsupply : handle.totalSupply ≠ 1)
    (hturn : Turn before tables' handle.handle ((storedOwner before handle.handle).map
      fun _ => none)) : Knows (remember known handle) tables' := by
  intro name
  rw [remember, if_neg fun h => hsupply h.1, hknows name]
  by_cases hname : name = handle.handle
  · subst hname
    simp [hturn.self]
  · rw [hturn.others hname]

theorem rollForwardHandles_settles (hnames : (handles.map fun h => h.handle).Nodup)
    (hdatabase : before.database = tables.database) (hknows : Knows known before)
    (hkept : ∀ handle ∈ handles,
      storedOwner before handle.handle = storedOwner tables handle.handle)
    (hok : rollForwardHandles hasStakeCredential handleMetadata handles before = .ok tables') :
    (∀ name, name ∉ handles.map (fun h => h.handle) →
        storedOwner tables' name = storedOwner before name) ∧
      (AllSettled tables tables' known handles ↔ NothingLost tables known handles) := by
  induction handles generalizing before known with
  | nil =>
    cases hok
    exact ⟨fun _ _ => rfl, Iff.rfl⟩
  | cons handle handles ih =>
    rw [List.map_cons, List.nodup_cons] at hnames
    -- after a turn that is settled the rest of the loop decides
    have hrest : ∀ {next : ProjectionTables} {owner : Option (Option PaymentAddress)},
        Turn before next handle.handle owner → Knows (remember known handle) next →
        rollForwardHandles hasStakeCredential handleMetadata handles next = .ok tables' →
        (Settled tables tables' known handle ↔ Settled tables next known handle) ∧
        (∀ name, name ∉ (handle :: handles).map (fun h => h.handle) →
          storedOwner tables' name = storedOwner before name) ∧
        (AllSettled tables tables' (remember known handle) handles ↔
          NothingLost tables (remember known handle) handles) := by
      intro next owner hturn hnext hok
      have hne : ∀ other ∈ handles, other.handle ≠ handle.handle := fun other hother heq =>
        hnames.1 (heq ▸ List.mem_map_of_mem hother)
      obtain ⟨hframe, hiff⟩ := ih hnames.2 (hturn.database.trans hdatabase) hnext
        (fun other hother => (hturn.others (hne other hother)).trans
          (hkept other (List.mem_cons_of_mem _ hother))) hok
      refine ⟨settled_congr (hframe _ hnames.1), fun name hname => ?_, hiff⟩
      rw [List.map_cons, List.mem_cons, not_or] at hname
      exact (hframe name hname.2).trans (hturn.others hname.1)
    rw [rollForwardHandles] at hok
    rw [AllSettled, NothingLost]
    by_cases hsupply : handle.totalSupply = 1
    · rw [if_pos hsupply] at hok
      by_cases hparent : HasParent known handle
      · rw [if_neg (mt (orphan_iff hknows handle).mp (not_not_intro hparent))] at hok
        obtain ⟨next, hnext, hok⟩ := bind_ok hok
        have hturn := turn_owned hnext
        obtain ⟨hself, hframe, hiff⟩ :=
          hrest hturn (knows_owned hknows ⟨hsupply, hparent⟩ hturn) hok
        have hsettled : Settled tables next known handle := by
          refine ⟨fun _ _ => ?_, fun _ hnot => absurd hparent hnot, fun hnot => absurd hsupply hnot⟩
          rw [hturn.self, ownerOf_congr hdatabase]
        rw [if_neg fun h => h.2 hparent, and_iff_right (hself.mpr hsettled)]
        exact ⟨hframe, hiff⟩
      · rw [if_pos ((orphan_iff hknows handle).mpr hparent)] at hok
        cases hok
        have hsettled : Settled tables tables' known handle :=
          ⟨fun _ h => absurd h hparent, fun _ _ => hkept handle List.mem_cons_self,
            fun h => absurd hsupply h⟩
        rw [if_pos ⟨hsupply, hparent⟩, and_iff_right hsettled, remember,
          if_neg fun h => hparent h.2]
        exact ⟨fun _ _ => rfl,
          allSettled_congr fun other hother => hkept other (List.mem_cons_of_mem _ hother)⟩
    · rw [if_neg hsupply] at hok
      have hturn := turn_invalidated handle.handle before
      obtain ⟨hself, hframe, hiff⟩ := hrest hturn (knows_invalidated hknows hsupply hturn) hok
      have hsettled : Settled tables tables' known handle := by
        refine hself.mpr ⟨fun h => absurd h hsupply, fun h => absurd h hsupply, fun _ => ?_⟩
        rw [hturn.self]
        cases storedOwner before handle.handle with
        | none => rfl
        | some owner => rfl
      rw [if_neg fun h => hsupply h.1, and_iff_right hsettled]
      exact ⟨hframe, hiff⟩

end Run

section Names

variable {Certificate : Type} {handles : JsMap String HandleOwnership}

def UnderNames (handles : JsMap String HandleOwnership) : Prop :=
  ∀ name handle, handles.get? name = some handle → handle.handle = name

theorem underNames_empty : UnderNames JsMap.empty := fun _ _ hnone => by cases hnone

theorem UnderNames.set {name : String} {handle : HandleOwnership} (h : UnderNames handles)
    (hname : handle.handle = name) : UnderNames (handles.set name handle) := by
  intro other found hfound
  rw [JsMap.get?_set] at hfound
  split_ifs at hfound with hsame
  · cases hfound
    exact hname.trans hsame.symm
  · exact h other found hfound

theorem perm_objectEntries {ν : Type} (object : JsMap String ν) :
    (objectEntries object).Perm object.entries := by
  refine ((List.mergeSort_perm _ _).append_right _).trans ?_
  convert List.filter_append_perm (fun entry => (arrayIndex? entry.1).isSome) object.entries using 3
  simp

theorem UnderNames.setEntries {entries : List (String × HandleOwnership)} (h : UnderNames handles)
    (hnamed : ∀ entry ∈ entries, entry.2.handle = entry.1) :
    UnderNames (entries.foldl (fun object entry => object.set entry.1 entry.2) handles) := by
  induction entries generalizing handles with
  | nil => exact h
  | cons entry rest ih =>
    rw [List.forall_mem_cons] at hnamed
    exact ih (h.set hnamed.1) hnamed.2

theorem UnderNames.spread {added : JsMap String HandleOwnership} (h : UnderNames handles)
    (hadded : UnderNames added) : UnderNames (spread handles added) :=
  h.setEntries fun _ hmem =>
    hadded _ _ (JsMap.get?_eq_some_iff.mpr ((perm_objectEntries added).mem_iff.mp hmem))

theorem underNames_setHandle (ownerships : List HandleOwnership) :
    UnderNames (ownerships.foldl setHandle JsMap.empty) := by
  have hset (handles : JsMap String HandleOwnership) (h : UnderNames handles) :
      UnderNames (ownerships.foldl setHandle handles) := by
    induction ownerships generalizing handles with
    | nil => exact h
    | cons ownership rest ih => exact ih _ (h.set rfl)
  exact hset _ underNames_empty

/-- The handles of a block are named apart. -/
theorem nodup_withHandles (reader : AssetNameReader) (policyIds : List (List UInt8))
    (cip67Assets : JsMap AssetId CIP67Asset) (block : Block Certificate) :
    ((withHandles reader policyIds cip67Assets block).map HandleOwnership.handle).Nodup := by
  have hadded (txs : List (OnChainTx Certificate)) (handles : JsMap String HandleOwnership)
      (h : UnderNames handles) :
      UnderNames (txs.foldl (addHandles reader policyIds cip67Assets) handles) := by
    induction txs generalizing handles with
    | nil => exact h
    | cons tx rest ih =>
      exact ih _ ((h.spread (underNames_setHandle _)).spread (underNames_setHandle _))
  have hnamed := hadded block.body _ underNames_empty
  rw [withHandles, List.map_map]
  generalize block.body.foldl (addHandles reader policyIds cip67Assets) JsMap.empty = handles
    at hnamed
  rw [((perm_objectEntries handles).map _).nodup_iff, List.map_congr_left fun entry hmem =>
    hnamed entry.1 entry.2 (JsMap.get?_eq_some_iff.mpr hmem)]
  exact handles.nodup

end Names

def twoAssetTables : ProjectionTables :=
  { ProjectionTables.empty with
    database := { Database.empty with assets := JsMap.ofList [([1], ⟨1, 5⟩), ([2], ⟨1, 5⟩)] } }

def orphanHandle : HandleOwnership where
  handle := "sub@root"
  latestOwnerAddress := some "addr1"
  assetId := [1]
  policyId := []
  parentHandle := some "root"

def otherHandle : HandleOwnership where
  handle := "other"
  latestOwnerAddress := some "addr2"
  assetId := [2]
  policyId := []

end CardanoSdk.Projection
