import CardanoSdk.Cbor.SkippedValue

/-!
What `readByteString` reads: every byte string that the current frame accepts,
whole or in chunks of any lengths, and nothing else.
-/

namespace CardanoSdk.Cbor

open Lib

variable {reader reader' : CborReader}

def AnyLength (_ : ℕ) : Prop := True

theorem concatenateChunks_byteChunks {allowed : ℕ → Prop} {data tail chunks value : List UInt8}
    {rounds i : ℕ} {concat : List UInt8} (hchunks : ByteChunks allowed chunks value)
    (hlength : chunks.length < 2 ^ 53) (hrounds : chunks.length < rounds)
    (hdata : data.drop i = chunks ++ (breakByte :: tail)) :
    concatenateChunks .byteString data rounds i concat =
      .ok (concat ++ value, i + chunks.length + 1) := by
  induction hchunks generalizing rounds i concat with
  | nil =>
    obtain ⟨rounds, rfl⟩ : ∃ n, rounds = n + 1 := ⟨rounds - 1, by omega⟩
    rw [List.nil_append] at hdata
    rw [concatenateChunks, hdata]
    simp [peekNextInitialByte, bind, Except.bind, breakByte, indefiniteLengthBreakByte, pure,
      Except.pure]
  | @cons head payload chunks value hhead _ _ ih =>
    have hpos := hhead.length_pos
    simp only [List.length_append] at hlength hrounds
    obtain ⟨rounds, rfl⟩ : ∃ n, rounds = n + 1 := ⟨rounds - 1, by omega⟩
    obtain ⟨first, rest, hcons, hmajor, _, hbreak, hdecode⟩ := @head_first .byteString _ _ hhead
    rw [List.append_assoc, List.append_assoc] at hdata
    have hpeek : peekNextInitialByte (data.drop i) .byteString = .ok first := by
      rw [hdata, hcons, List.cons_append, peekNextInitialByte, if_neg (by simp [hmajor])]
    have hdefinite : peekDefiniteLength first (data.drop i) =
        .ok (payload.length, head.length) := by
      rw [peekDefiniteLength, hdata, hdecode]
      simp only [bind, Except.bind, roundToDouble_of_lt (show payload.length < 2 ^ 53 by omega)]
      rfl
    have hvalue : (data.drop (i + head.length)).take payload.length = payload := by
      rw [← List.drop_drop, hdata, List.drop_left, List.take_left]
    have hnext : data.drop (i + (head.length + payload.length)) =
        chunks ++ (breakByte :: tail) := by
      rw [← List.drop_drop, hdata, ← List.append_assoc, ← List.length_append, List.drop_left]
    have hrest := @ih rounds _ (concat ++ payload) (by omega) (by omega) hnext
    rw [concatenateChunks]
    simp only [hpeek, hdefinite, bind, Except.bind, if_neg hbreak, hvalue, hrest]
    rw [List.append_assoc, List.length_append, List.length_append]
    congr 2
    omega

variable {value : List UInt8}

theorem concatenateChunks_eq_ok {data concat : List UInt8} {rounds i stop : ℕ}
    (hlength : data.length < 2 ^ 53)
    (h : concatenateChunks .byteString data rounds i concat = .ok (value, stop)) :
    ∃ chunks tail content, ByteChunks AnyLength chunks content ∧
      data.drop i = chunks ++ (breakByte :: tail) ∧ value = concat ++ content ∧
      stop = i + chunks.length + 1 := by
  induction rounds generalizing i concat with
  | zero => cases h
  | succ rounds ih =>
    rw [concatenateChunks] at h
    obtain ⟨first, hpeek, h⟩ := bind_ok h
    cases hdata : data.drop i with
    | nil =>
      rw [hdata] at hpeek
      cases hpeek
    | cons header tail =>
      rw [hdata, peekNextInitialByte] at hpeek
      split at hpeek
      · cases hpeek
      · rename_i hknown
        cases hpeek
        split at h
        · rename_i hbreak
          cases h
          exact ⟨[], tail, [], ByteChunks.nil, by rw [hbreak]; rfl, (List.append_nil _).symm,
            rfl⟩
        · rename_i hbreak
          obtain ⟨⟨chunkLength, bytesRead⟩, hdefinite, h⟩ := bind_ok h
          obtain ⟨⟨argument, _⟩, hdecode, hpure⟩ := bind_ok hdefinite
          cases hpure
          rw [hdata] at hdecode
          obtain ⟨payload, rest, hsplit, rfl, hhead⟩ := decodeUnsignedInteger_eq_ok hdecode
          have hmajor : getMajorType first = .byteString := by
            by_contra hother
            exact hknown ⟨hbreak, hother⟩
          rw [hmajor] at hhead
          obtain ⟨chunks, tail', content, hchunks, hnext, rfl, rfl⟩ := ih h
          -- there are bytes behind the chunk, so it is there in full
          have hinside : i + (payload.length + 1 + roundToDouble argument) < data.length := by
            by_contra hge
            rw [List.drop_of_length_le (by omega)] at hnext
            cases chunks <;> cases hnext
          have hround : roundToDouble argument = argument := by
            rcases @roundToDouble_eq_or argument with heq | ⟨_, hlarge⟩
            · exact heq
            · omega
          rw [hround] at hinside hnext ⊢
          have hrest : data.drop (i + (payload.length + 1)) = rest := by
            rw [← List.drop_drop, hdata, hsplit, List.drop_succ_cons, List.drop_left]
          have hargument : (rest.take argument).length = argument := by
            rw [List.length_take, ← hrest, List.length_drop]
            omega
          have hcontent : rest = rest.take argument ++ (chunks ++ (breakByte :: tail')) := by
            rw [← hnext, ← Nat.add_assoc, ← List.drop_drop, hrest, List.take_append_drop]
          have hchunk : Head 2 (rest.take argument).length (first :: payload) := by
            rw [hargument]
            exact hhead
          refine ⟨(first :: payload) ++ rest.take argument ++ chunks, tail', _,
            ByteChunks.cons hchunk trivial hchunks, ?_, ?_, ?_⟩
          · rw [hsplit, List.append_assoc, List.append_assoc, ← hcontent]
            rfl
          · rw [hrest, List.append_assoc]
          · rw [List.length_append, List.length_append, hargument, List.length_cons]
            omega

theorem readByteString_ok {allowed : ℕ → Prop} {item rest : List UInt8}
    (hitem : ByteString allowed item value) (hbytes : reader.getRemainingBytes = item ++ rest)
    (haccepts : ∀ first ∈ item.head?, reader.currentFrame.Accepts first) :
    readByteString reader = .ok value (reader.pass 1 item.length) := by
  cases hitem with
  | @whole head payload hhead _ =>
    rw [head?_append_of_head hhead] at haccepts
    exact readString_ok .byteString hhead hbytes haccepts
  | @chunked chunks value hchunks =>
    obtain ⟨hpeek, hinfo, _⟩ := peek_indefinite .byteString hbytes (haccepts _ rfl)
    have hlt := reader.getRemainingBytes_lt
    rw [hbytes] at hlt
    simp only [List.cons_append, List.length_cons, List.length_append] at hlt
    have hdata : reader.getRemainingBytes.drop 1 = chunks ++ (breakByte :: rest) := by
      rw [hbytes]
      simp
    have hrounds : chunks.length < reader.getRemainingBytes.length + 1 := by
      rw [hbytes]
      simp only [List.cons_append, List.length_cons, List.length_append]
      omega
    have hconcat := @concatenateChunks_byteChunks _ _ _ _ _ _ _ [] hchunks (by omega) hrounds hdata
    rw [List.nil_append] at hconcat
    have hlength : (initialByte 2 31 :: (chunks ++ [breakByte])).length = 1 + chunks.length + 1 := by
      simp
      omega
    rw [hlength]
    apply readItem_ok
    · unfold peekString
      simp only [hpeek, bind, Except.bind]
      rw [if_pos hinfo]
      exact hconcat
    · omega
    · rw [hbytes, ← hlength, List.length_append]
      omega

theorem readByteString_eq_ok (h : readByteString reader = .ok value reader') :
    ∃ item, ByteString AnyLength item value ∧ PassedItem reader item reader' := by
  obtain ⟨bytes, hpeek, _, hstate⟩ := readItem_eq_ok h
  obtain ⟨first, hfirst, hstring⟩ := bind_ok hpeek
  obtain ⟨haccepts, tail, hbytes⟩ := accepts_of_peekInitialByte hfirst
  have htype := (peekInitialByte_eq_ok hfirst).2.2.2 _ rfl
  split at hstring
  · rename_i hinfo
    have hbyte : first = initialByte 2 31 := by
      rw [@eq_initialByte_of first, htype, hinfo]
      rfl
    subst hbyte
    obtain ⟨chunks, rest, content, hchunks, hdata, rfl, rfl⟩ :=
      concatenateChunks_eq_ok reader.getRemainingBytes_lt hstring
    rw [hbytes, List.drop_one, List.tail_cons] at hdata
    refine ⟨_, ByteString.chunked hchunks, ⟨rest, ?_⟩, ?_, ?_⟩
    · rw [hbytes, hdata]
      simp
    · rintro first hfirst
      cases hfirst
      exact haccepts
    · rw [hstate]
      congr 1
      simp
      omega
  · obtain ⟨head, rest, hhead, hsplit, rfl⟩ := peekDefiniteLengthString_eq_ok hbytes hstring
    rw [htype] at hhead
    refine ⟨_, ByteString.whole hhead trivial, ⟨rest, hsplit⟩, ?_, hstate⟩
    rw [head?_append_of_head hhead]
    obtain ⟨info, payload, _, rfl⟩ := hhead.exists_cons
    rintro other hother
    cases hother
    rw [hbytes] at hsplit
    cases hsplit
    exact haccepts

end CardanoSdk.Cbor
