import CardanoSdk.Lib.Collections

/-!
Functions that remember their results, by a key of the arguments. A call that fails leaves
nothing in the cache.
-/

namespace CardanoSdk.Lib

variable {α β κ : Type*} [DecidableEq κ]

section Memoized

variable (key : α → κ) (f : α → Option β)

/-- The answer to one call, and the cache after it. -/
def memoized (args : α) (cache : JsMap κ β) : Option β × JsMap κ β :=
  match cache.get? (key args) with
  | some result => (some result, cache)
  | none =>
    match f args with
    | some result => (some result, cache.set (key args) result)
    | none => (none, cache)

def cacheAfter (calls : List α) : JsMap κ β :=
  calls.foldl (fun cache args => (memoized key f args cache).2) JsMap.empty

def answersFrom (cache : JsMap κ β) : List α → List (Option β)
  | [] => []
  | args :: calls =>
    let (answer, cache') := memoized key f args cache
    answer :: answersFrom cache' calls

def answers (calls : List α) : List (Option β) := answersFrom key f JsMap.empty calls

def firstResult (calls : List α) (k : κ) : Option β :=
  (calls.filter fun args => key args = k).findSome? f

end Memoized

variable {key : α → κ} {f : α → Option β}

theorem firstResult_append (calls : List α) (args : α) (k : κ) :
    firstResult key f (calls ++ [args]) k =
      (firstResult key f calls k).or (if key args = k then f args else none) := by
  rw [firstResult, List.filter_append, List.findSome?_append, firstResult]
  congr 1
  split
  · rename_i hkey
    rw [List.filter_singleton, decide_eq_true hkey, cond_true, List.findSome?_cons]
    cases f args <;> rfl
  · rename_i hkey
    rw [List.filter_singleton, decide_eq_false hkey]
    rfl

/-- The cache holds the first result of every key. -/
def Remembers (key : α → κ) (f : α → Option β) (calls : List α) (cache : JsMap κ β) : Prop :=
  ∀ k, cache.get? k = firstResult key f calls k

theorem Remembers.memoized {calls : List α} {cache : JsMap κ β} (h : Remembers key f calls cache)
    (args : α) :
    (memoized key f args cache).1 = firstResult key f (calls ++ [args]) (key args) ∧
      Remembers key f (calls ++ [args]) (memoized key f args cache).2 := by
  have hown := h (key args)
  have hlast := @firstResult_append _ _ _ _ key f calls args
  unfold Lib.memoized
  cases hcached : cache.get? (key args) with
  | some result =>
    rw [hcached] at hown
    refine ⟨?_, fun k => ?_⟩
    · rw [hlast, ← hown]
      rfl
    · rw [hlast, h k]
      by_cases hkey : key args = k
      · rw [← hkey, ← hown]
        rfl
      · rw [if_neg hkey, Option.or_none]
  | none =>
    rw [hcached] at hown
    cases hresult : f args with
    | some result =>
      refine ⟨?_, fun k => ?_⟩
      · rw [hlast, ← hown, if_pos rfl, hresult]
        rfl
      · dsimp only
        rw [hlast, JsMap.get?_set, hresult]
        by_cases hkey : key args = k
        · rw [if_pos hkey.symm, if_pos hkey, ← hkey, ← hown]
          rfl
        · rw [if_neg (Ne.symm hkey), if_neg hkey, Option.or_none, h k]
    | none =>
      refine ⟨?_, fun k => ?_⟩
      · rw [hlast, ← hown, if_pos rfl, hresult]
        rfl
      · dsimp only
        rw [hlast, hresult, ite_self, Option.or_none, h k]

theorem remembers_nil : Remembers key f [] (JsMap.empty : JsMap κ β) := fun _ => rfl

theorem remembers_cacheAfter (calls : List α) : Remembers key f calls (cacheAfter key f calls) := by
  induction calls using List.reverseRecOn with
  | nil => exact remembers_nil
  | append_singleton calls args ih =>
    rw [cacheAfter, List.foldl_append]
    exact (ih.memoized args).2

theorem answersFrom_append (cache : JsMap κ β) (calls : List α) (args : α) :
    answersFrom key f cache (calls ++ [args]) = answersFrom key f cache calls ++
      [(memoized key f args (calls.foldl (fun cache args => (memoized key f args cache).2) cache)).1] := by
  induction calls generalizing cache with
  | nil => rfl
  | cons first calls ih =>
    change (memoized key f first cache).1 :: answersFrom key f _ (calls ++ [args]) = _
    rw [ih]
    rfl

theorem answers_append (calls : List α) (args : α) :
    answers key f (calls ++ [args]) =
      answers key f calls ++ [firstResult key f (calls ++ [args]) (key args)] := by
  rw [answers, answersFrom_append]
  exact congrArg (fun answer => answers key f calls ++ [answer])
    ((remembers_cacheAfter calls).memoized args).1

/-- A later call with the key of an earlier one that had a result has the same result. -/
def Agree (key : α → κ) (f : α → Option β) (earlier args : α) : Prop :=
  key earlier = key args → (f earlier).isSome → f args = f earlier

variable {calls : List α} {k : κ}

theorem firstResult_eq_some {result : β} (h : firstResult key f calls k = some result) :
    ∃ args ∈ calls, key args = k ∧ f args = some result := by
  obtain ⟨args, hmem, hresult⟩ := List.exists_of_findSome?_eq_some h
  obtain ⟨hmem, hkey⟩ := List.mem_filter.mp hmem
  exact ⟨args, hmem, of_decide_eq_true hkey, hresult⟩

theorem firstResult_eq_none (h : firstResult key f calls k = none) :
    ∀ args ∈ calls, key args = k → f args = none := by
  intro args hmem hkey
  exact List.findSome?_eq_none_iff.mp h args
    (List.mem_filter.mpr ⟨hmem, decide_eq_true hkey⟩)

theorem result_eq_firstResult (hcalls : calls.Pairwise (Agree key f)) {result : β}
    (hfirst : firstResult key f calls k = some result) :
    ∀ args ∈ calls, key args = k → (f args).isSome → f args = some result := by
  induction hcalls with
  | nil => exact fun _ hmem => (List.not_mem_nil hmem).elim
  | @cons first calls hagree _ ih =>
    have hsplit : firstResult key f (first :: calls) k =
        (if key first = k then f first else none).or (firstResult key f calls k) := by
      rw [firstResult, List.filter_cons]
      split
      · rename_i hkey
        rw [if_pos (of_decide_eq_true hkey), List.findSome?_cons]
        cases f first <;> rfl
      · rename_i hkey
        rw [if_neg (fun heq => hkey (decide_eq_true heq))]
        rfl
    rw [hsplit] at hfirst
    intro args hmem hkey hsome
    rcases List.mem_cons.mp hmem with rfl | hmem
    · rw [if_pos hkey] at hfirst
      obtain ⟨own, hown⟩ := Option.isSome_iff_exists.mp hsome
      rw [hown] at hfirst ⊢
      exact hfirst
    · split at hfirst
      · rename_i hfirstKey
        cases hresult : f first with
        | none =>
          rw [hresult] at hfirst
          exact ih hfirst args hmem hkey hsome
        | some own =>
          rw [hresult] at hfirst
          rw [hagree args hmem (hfirstKey.trans hkey.symm) (by rw [hresult]; rfl), hresult]
          exact hfirst
      · exact ih hfirst args hmem hkey hsome

/-- Where the calls before agree with each other, one more is answered rightly
exactly if it agrees with them. -/
theorem firstResult_eq_iff {args : α} (hcalls : calls.Pairwise (Agree key f)) :
    firstResult key f (calls ++ [args]) (key args) = f args ↔
      ∀ earlier ∈ calls, Agree key f earlier args := by
  rw [firstResult_append, if_pos rfl]
  cases hfirst : firstResult key f calls (key args) with
  | none =>
    refine iff_of_true rfl fun earlier hmem hkey hsome => ?_
    rw [firstResult_eq_none hfirst earlier hmem hkey] at hsome
    cases hsome
  | some result =>
    constructor
    · intro hanswer earlier hmem hkey hsome
      rw [result_eq_firstResult hcalls hfirst earlier hmem hkey hsome, ← hanswer]
      rfl
    · intro hagree
      obtain ⟨first, hmem, hkey, hresult⟩ := firstResult_eq_some hfirst
      rw [hagree first hmem hkey (by rw [hresult]; rfl), hresult]
      rfl

/-- The memoised function answers what the function gives, on a whole run of
calls, exactly if the calls agree. -/
theorem answers_eq_iff (calls : List α) :
    answers key f calls = calls.map f ↔ calls.Pairwise (Agree key f) := by
  induction calls using List.reverseRecOn with
  | nil => exact iff_of_true rfl List.Pairwise.nil
  | append_singleton calls args ih =>
    have hsplit : answers key f (calls ++ [args]) = (calls ++ [args]).map f ↔
        answers key f calls = calls.map f ∧
          firstResult key f (calls ++ [args]) (key args) = f args := by
      rw [answers_append, List.map_append, List.map_singleton]
      constructor
      · intro h
        obtain ⟨hcalls, hlast⟩ := List.append_inj' h rfl
        exact ⟨hcalls, List.singleton_inj.mp hlast⟩
      · rintro ⟨hcalls, hlast⟩
        rw [hcalls, hlast]
    rw [hsplit, ih, List.pairwise_append]
    constructor
    · rintro ⟨hcalls, hlast⟩
      refine ⟨hcalls, List.pairwise_singleton _ _, fun earlier hmem last hlastMem => ?_⟩
      rw [List.mem_singleton.mp hlastMem]
      exact (firstResult_eq_iff hcalls).mp hlast earlier hmem
    · rintro ⟨hcalls, -, hagree⟩
      exact ⟨hcalls, (firstResult_eq_iff hcalls).mpr fun earlier hmem =>
        hagree earlier hmem args (List.mem_singleton_self _)⟩

end CardanoSdk.Lib
