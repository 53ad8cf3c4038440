import GoodbyeDpi.PacketProcessSpec

/-!
# Mixing the case of the host name

`apply_host_mixedcase` on a payload that holds a NUL.  The edit is confined to the value of the Host line, which begins
at the first non-blank after the first `Host:` and ends at a CR, an LF or the NUL.  Where the line is does not depend
on letter case, and neither do the bytes that are written; so a second pass finds the same line and changes nothing.
-/

namespace GoodbyeDpi

open CSem Traced Access

/-! ### Letter case -/

theorem toUpper_toLower (c : UInt8) : toUpper (toLower c) = toUpper c := by
  unfold toLower toUpper
  grind

/-- The byte that is written does not depend on the case of the byte that was there. -/
theorem mixByte_congr {c d : UInt8} (i : Nat) (h : toLower c = toLower d) : mixByte i c = mixByte i d := by
  unfold mixByte
  rw [h, ← toUpper_toLower c, h, toUpper_toLower]

theorem alternateCase_congr (i : Nat) {s t : List UInt8} (h : s.map toLower = t.map toLower) :
    alternateCase i s = alternateCase i t := by
  induction s generalizing i t with
  | nil =>
    rw [List.map_eq_nil_iff.1 h.symm]
  | cons c s ih =>
    cases t with
    | nil => cases h
    | cons d t =>
      obtain ⟨hhead, htail⟩ := List.cons.inj h
      rw [alternateCase, alternateCase, mixByte_congr i hhead, ih (i + 1) htail]

private theorem length_alternateCase (i : Nat) (s : List UInt8) : (alternateCase i s).length = s.length :=
  length_eq_of_ci (map_toLower_alternateCase i s)

/-- A control character or a space is not the lower case of anything else. -/
private theorem toLower_beq {d : UInt8} (hd : d ≤ 32) (c : UInt8) : (toLower c == d) = (c == d) := by
  rw [Bool.eq_iff_iff, beq_iff_eq, beq_iff_eq]
  unfold toLower
  grind

private theorem endsBlanks_toLower (c : UInt8) : endsBlanks (toLower c) = endsBlanks c := by
  rw [endsBlanks, toLower_beq (by decide), toLower_beq (by decide), toLower_beq (by decide), endsBlanks]

private theorem endsValue_toLower (c : UInt8) : endsValue (toLower c) = endsValue c := by
  rw [endsValue, toLower_beq (by decide), toLower_beq (by decide), toLower_beq (by decide), endsValue]

/-! ### The Host line up to letter case -/

section

variable {p : UInt8 → Bool} {r r' b b' : List UInt8}

/-- A scan for bytes that are no letters stops at the same place. -/
private theorem takeWhile_ci (hp : ∀ c, p (toLower c) = p c) (h : r'.map toLower = r.map toLower) :
    (r'.takeWhile p).map toLower = (r.takeWhile p).map toLower := by
  have hcomp : p ∘ toLower = p := funext hp
  have hmap : ∀ s : List UInt8, (s.takeWhile p).map toLower = (s.map toLower).takeWhile p := by
    intro s
    rw [List.takeWhile_map, hcomp]
  rw [hmap, hmap, h]

private theorem dropWhile_ci (hp : ∀ c, p (toLower c) = p c) (h : r'.map toLower = r.map toLower) :
    (r'.dropWhile p).map toLower = (r.dropWhile p).map toLower := by
  have hcomp : p ∘ toLower = p := funext hp
  have hmap : ∀ s : List UInt8, (s.dropWhile p).map toLower = (s.map toLower).dropWhile p := by
    intro s
    rw [List.dropWhile_map, hcomp]
  rw [hmap, hmap, h]

private theorem notEndsBlanks_toLower (c : UInt8) : (!endsBlanks (toLower c)) = !endsBlanks c := by
  rw [endsBlanks_toLower]

private theorem notEndsValue_toLower (c : UInt8) : (!endsValue (toLower c)) = !endsValue c := by
  rw [endsValue_toLower]

private theorem hostBlanks_ci (h : r'.map toLower = r.map toLower) :
    (hostBlanks r').map toLower = (hostBlanks r).map toLower :=
  takeWhile_ci notEndsBlanks_toLower h

private theorem hostValue_ci (h : r'.map toLower = r.map toLower) :
    (hostValue r').map toLower = (hostValue r).map toLower :=
  takeWhile_ci notEndsValue_toLower (dropWhile_ci notEndsBlanks_toLower h)

private theorem hostPos_ci (h : b'.map toLower = b.map toLower) : hostPos b' = hostPos b := by
  unfold hostPos findCi
  rw [length_eq_of_ci h, map_toLower_cstr, map_toLower_cstr, h]

private theorem splitHost_ci {pre : List UInt8} (h : b'.map toLower = b.map toLower)
    (hs : splitHost b = some (pre, r)) :
    ∃ pre' r', splitHost b' = some (pre', r') ∧ pre'.length = pre.length ∧ r'.map toLower = r.map toLower := by
  obtain ⟨j, hj, heq⟩ := Option.map_eq_some_iff.1 hs
  obtain ⟨rfl, rfl⟩ := Prod.mk.inj heq
  refine ⟨b'.take (j + 5), b'.drop (j + 5), ?_, ?_, ?_⟩
  · rw [splitHost, hostPos_ci h, hj]
    rfl
  · rw [List.length_take, List.length_take, length_eq_of_ci h]
  · rw [List.map_drop, List.map_drop, h]

end

/-! ### The outcome -/

/-- The return code and the payload that `apply_host_mixedcase` leaves. -/
def mixedOutcome (b : List UInt8) (payloadLen : Nat) : Int × List UInt8 :=
  if payloadLen < 6 then (-1, b)
  else match splitHost b with
    | none => (-1, b)
    | some s => (if hostValue s.2 = [] then -1 else 0, s.1 ++ mixValue s.2)

/-- A payload with a NUL in which there is no room for `Host:`. -/
private theorem findCi_of_short {b : List UInt8} (hz : (0 : UInt8) ∈ b) (h : b.length < 6) :
    findCi hostHeader (cstr b) = none := by
  cases hf : findCi hostHeader (cstr b) with
  | none => rfl
  | some j =>
    have hlen := firstOcc_length hf
    have h5 : (hostHeader.map toLower).length = 5 := rfl
    have hlt := (take_cstr_length_succ hz).2
    rw [h5, List.length_map] at hlen
    omega

/-- The first `Host:` stands before the NUL. -/
private theorem zero_mem_of_splitHost {b pre r : List UInt8} (hs : splitHost b = some (pre, r)) (hz : (0 : UInt8) ∈ b) :
    (0 : UInt8) ∈ r := by
  obtain ⟨heq, -, hpre, -⟩ := splitHost_eq_some hs
  rw [heq] at hz
  exact (List.mem_append.1 hz).resolve_left hpre

private theorem append_mixValue (pre r : List UInt8) :
    pre ++ mixValue r = pre ++ hostBlanks r ++ alternateCase 0 (hostValue r) ++ afterValue r := by
  simp only [mixValue, List.append_assoc]

/-- In a payload with a NUL the search for `Host:` stays inside, and so does the scan of the value. -/
theorem obeys_applyHostMixedcase_of_zero {b : List UInt8} (hz : (0 : UInt8) ∈ b) (n : Nat) :
    Obeys InRange (applyHostMixedcase b n) (· = mixedOutcome b n) := by
  have hw := watches_inRange Buf.payload
  by_cases hn : n < 6
  · simp [applyHostMixedcase, findHostHeader, mixedOutcome, hn]
  by_cases hb : b.length < 6
  · have hnone := findCi_of_short hz hb
    have hsplit : splitHost b = none := by simp [splitHost, hostPos, hb]
    simp only [applyHostMixedcase, findHostHeader, mixedOutcome, hn, ↓reduceIte, obeys_bind, hsplit]
    rw [obeys_stristr hw (by decide) (by decide), hnone]
    exact ⟨hz, by simp⟩
  · have hsame : applyHostMixedcase b n = applyHostMixedcase b b.length := by
      simp only [applyHostMixedcase, findHostHeader, hn, hb, ↓reduceIte]
    rw [hsame, obeys_applyHostMixedcase hw]
    cases hs : splitHost b with
    | none =>
      refine ⟨?_, by simp [mixedOutcome, hn, hs]⟩
      intro _
      have hpos := hostPos_eq_none_iff.2 hs
      rw [hostPos, if_neg hb] at hpos
      rw [hpos]
      exact hz
    | some s =>
      obtain ⟨pre, r⟩ := s
      have hr := zero_mem_of_splitHost hs hz
      have hne : r ≠ [] := List.ne_nil_of_mem hr
      refine ⟨(hostSearchInside_iff hs).2 hne, ?_, by simp [mixedOutcome, hn, hs]⟩
      exact List.any_eq_true.2 ⟨0, hr, rfl⟩

theorem applyHostMixedcase_val {b : List UInt8} (hz : (0 : UInt8) ∈ b) (n : Nat) :
    (applyHostMixedcase b n).val = some (mixedOutcome b n) :=
  val_of_obeys_eq (fun _ h => h) (obeys_applyHostMixedcase_of_zero hz n)

/-! ### The Host line -/

/-- `b` is the text up to the first `Host:`, some blanks, a value and the rest: the value is not empty, does not begin
with a blank, and is followed by the end of the line. -/
structure HostLine (b pre blanks value rest : List UInt8) : Prop where
  eq : b = pre ++ blanks ++ value ++ rest
  first : ∃ j, findCi hostHeader (cstr b) = some j ∧ pre.length = j + 5
  blanks_blank : ∀ c ∈ blanks, c = 32 ∨ c = 9
  value_head : ∃ c s, value = c :: s ∧ c ≠ 32 ∧ c ≠ 9
  value_inside : ∀ c ∈ value, c ≠ 0 ∧ c ≠ 13 ∧ c ≠ 10
  rest_head : ∃ c s, rest = c :: s ∧ (c = 0 ∨ c = 13 ∨ c = 10)

private theorem dropWhile_head {p : UInt8 → Bool} {r : List UInt8} (h : r.dropWhile p ≠ []) :
    ∃ c s, r.dropWhile p = c :: s ∧ p c = false := by
  obtain ⟨c, s, heq⟩ := List.exists_cons_of_ne_nil h
  have hhead := List.head_dropWhile_not p h
  simp only [heq, List.head_cons] at hhead
  exact ⟨c, s, heq, by simpa using hhead⟩

/-- The line ends, at the NUL if not before. -/
private theorem afterValue_ne_nil {r : List UInt8} (hr : (0 : UInt8) ∈ r) : afterValue r ≠ [] := by
  intro hnil
  rw [split_value r, hnil, List.append_nil] at hr
  rcases List.mem_append.1 hr with h | h
  · have := List.mem_takeWhile_imp h
    simp [endsBlanks] at this
  · have := List.mem_takeWhile_imp h
    simp [endsValue] at this

/-- The value begins with a byte that is no blank. -/
private theorem hostValue_head {r : List UInt8} (hv : hostValue r ≠ []) :
    ∃ c s, hostValue r = c :: s ∧ c ≠ 32 ∧ c ≠ 9 := by
  have hdrop : r.dropWhile (!endsBlanks ·) ≠ [] := by
    intro hnil
    exact hv (by rw [hostValue, hnil, List.takeWhile_nil])
  obtain ⟨c, s, hcs, hc⟩ := dropWhile_head hdrop
  have hkeep : endsValue c = false := by
    by_contra hend
    apply hv
    rw [hostValue, hcs, List.takeWhile_cons, if_neg (by simpa using hend)]
  refine ⟨c, s.takeWhile (!endsValue ·), ?_, ?_⟩
  · rw [hostValue, hcs, List.takeWhile_cons, if_pos (by simp [hkeep])]
  · have hne : c ≠ 0 := by
      rintro rfl
      cases hkeep
    simpa [endsBlanks, hne] using hc

private theorem hostLine_of_splitHost {b pre r : List UInt8} (hs : splitHost b = some (pre, r)) (hz : (0 : UInt8) ∈ b)
    (hv : hostValue r ≠ []) : HostLine b pre (hostBlanks r) (hostValue r) (afterValue r) := by
  obtain ⟨heq, h6, -, j, hpos, hlen, -⟩ := splitHost_eq_some hs
  rw [hostPos, if_neg (by omega)] at hpos
  refine ⟨?_, ⟨j, hpos, hlen⟩, ?_, hostValue_head hv, ?_, ?_⟩
  · rw [List.append_assoc, List.append_assoc, ← List.append_assoc (hostBlanks r), ← split_value r]
    exact heq
  · intro c hc
    have := List.mem_takeWhile_imp hc
    simpa [endsBlanks] using And.right (by simpa [endsBlanks] using this)
  · intro c hc
    have := List.mem_takeWhile_imp hc
    simpa [endsValue, and_assoc] using this
  · obtain ⟨c, s, hcs, hc⟩ := dropWhile_head (afterValue_ne_nil (zero_mem_of_splitHost hs hz))
    have hend : endsValue c = true := by simpa using hc
    exact ⟨c, s, hcs, by simpa [endsValue, or_assoc] using hend⟩

/-- The line of a payload that is the same up to letter case, and what is written there. -/
private theorem mixedOutcome_ci {b b' pre r : List UInt8} {n : Nat} (hn : ¬ n < 6) (hz : (0 : UInt8) ∈ b)
    (hs : splitHost b = some (pre, r)) (hv : hostValue r ≠ []) (h : b'.map toLower = b.map toLower) :
    ∃ pre' blanks value rest, HostLine b' pre' blanks value rest ∧ pre'.length = pre.length ∧
      blanks.length = (hostBlanks r).length ∧ value.length = (hostValue r).length ∧
      mixedOutcome b' n = (0, pre' ++ blanks ++ alternateCase 0 (hostValue r) ++ rest) := by
  obtain ⟨pre', r', hs', hpre, hr⟩ := splitHost_ci h hs
  have hvalue := hostValue_ci hr
  have hv' : hostValue r' ≠ [] := by
    intro hnil
    rw [hnil] at hvalue
    exact hv (List.map_eq_nil_iff.1 hvalue.symm)
  refine ⟨pre', hostBlanks r', hostValue r', afterValue r', ?_, hpre, length_eq_of_ci (hostBlanks_ci hr),
    length_eq_of_ci hvalue, ?_⟩
  · exact hostLine_of_splitHost hs' ((zero_mem_congr h).2 hz) hv'
  · simp only [mixedOutcome, hn, hs', hv', ↓reduceIte, mixValue, alternateCase_congr 0 hvalue, List.append_assoc]

/-- The second pass finds parts of the same lengths, so they are the parts that the first pass wrote. -/
private theorem mixedOutcome_again {b pre r : List UInt8} {n : Nat} (hn : ¬ n < 6) (hz : (0 : UInt8) ∈ b)
    (hs : splitHost b = some (pre, r)) (hv : hostValue r ≠ [])
    (hci : (pre ++ mixValue r).map toLower = b.map toLower) :
    mixedOutcome (pre ++ mixValue r) n = (0, pre ++ mixValue r) := by
  obtain ⟨pre', blanks', value', rest', hline', hpre', hblanks', hvalue', hval'⟩ := mixedOutcome_ci hn hz hs hv hci
  have hparts := (append_mixValue pre r).symm.trans hline'.eq
  obtain ⟨hparts, hrest⟩ := List.append_inj hparts
    (by simp only [List.length_append, hpre', hblanks', hvalue', length_alternateCase])
  obtain ⟨hparts, -⟩ := List.append_inj hparts (by simp only [List.length_append, hpre', hblanks'])
  rw [hval', ← hparts, ← hrest, ← append_mixValue]

/-- On a payload with a NUL the edit stays in range.  When it returns -1 nothing is changed.  When it returns 0 the
payload is the same up to letter case, a second pass returns 0 and changes nothing, and only the value of the Host line
differs; a payload that is the same up to letter case has its value at the same place and gets the same bytes there. -/
theorem applyHostMixedcase_neutral (b : List UInt8) (n : Nat) (hz : (0 : UInt8) ∈ b) :
    ∃ code b₁, (applyHostMixedcase b n).All InRange ∧ (applyHostMixedcase b n).val = some (code, b₁) ∧
      (code = 0 ∨ code = -1 ∧ b₁ = b) ∧
      (code = 0 → b₁.length = b.length ∧ b₁.map toLower = b.map toLower ∧
        (applyHostMixedcase b₁ n).val = some (0, b₁) ∧
        ∃ pre blanks value rest mixed, HostLine b pre blanks value rest ∧ mixed.length = value.length ∧
          b₁ = pre ++ blanks ++ mixed ++ rest ∧
          ∀ b', b'.map toLower = b.map toLower → ∃ pre' blanks' value' rest', HostLine b' pre' blanks' value' rest' ∧
            pre'.length = pre.length ∧ blanks'.length = blanks.length ∧ value'.length = value.length ∧
            (applyHostMixedcase b' n).val = some (0, pre' ++ blanks' ++ mixed ++ rest')) := by
  refine ⟨(mixedOutcome b n).1, (mixedOutcome b n).2, (obeys_applyHostMixedcase_of_zero hz n).1,
    applyHostMixedcase_val hz n, ?_⟩
  by_cases hn : n < 6
  · simp [mixedOutcome, hn]
  cases hs : splitHost b with
  | none => simp [mixedOutcome, hn, hs]
  | some s =>
    obtain ⟨pre, r⟩ := s
    have heq := (splitHost_eq_some hs).1
    by_cases hv : hostValue r = []
    · have hmix : mixValue r = r := by
        conv_rhs => rw [split_value r]
        simp [mixValue, hv, alternateCase]
      have hout : mixedOutcome b n = (-1, b) := by simp [mixedOutcome, hn, hs, hv, hmix, ← heq]
      simp [hout]
    · have hout : mixedOutcome b n = (0, pre ++ mixValue r) := by simp [mixedOutcome, hn, hs, hv]
      have hci : (pre ++ mixValue r).map toLower = b.map toLower := by
        rw [heq, List.map_append, List.map_append, map_toLower_mixValue]
      have hline := hostLine_of_splitHost hs hz hv
      rw [hout]
      refine ⟨Or.inl rfl, fun _ => ⟨length_eq_of_ci hci, hci, ?_, pre, hostBlanks r, hostValue r, afterValue r,
        alternateCase 0 (hostValue r), hline, length_alternateCase 0 _, append_mixValue pre r, ?_⟩⟩
      · rw [applyHostMixedcase_val ((zero_mem_congr hci).2 hz) n, mixedOutcome_again hn hz hs hv hci]
      · intro b' hb'
        obtain ⟨pre', blanks', value', rest', hline', hpre', hblanks', hvalue', hval'⟩ :=
          mixedOutcome_ci hn hz hs hv hb'
        refine ⟨pre', blanks', value', rest', hline', hpre', hblanks', hvalue', ?_⟩
        rw [applyHostMixedcase_val ((zero_mem_congr hb').2 hz) n, hval']

/-- A request with its NUL. -/
def mixedRequest : List UInt8 := ascii "GET / HTTP/1.1\r\nHost: Example.com\r\n\r\n" ++ [0]

theorem applyHostMixedcase_neutral_mixedRequest :
    ∃ b₁, (applyHostMixedcase mixedRequest 38).val = some (0, b₁) ∧ b₁ ≠ mixedRequest ∧
      (applyHostMixedcase b₁ 38).val = some (0, b₁) := by
  obtain ⟨code, b₁, -, hval, -, hzero⟩ := applyHostMixedcase_neutral mixedRequest 38 (by decide)
  have hcode : (applyHostMixedcase mixedRequest 38).val.map Prod.fst = some 0 := by decide +kernel
  have hbytes : (applyHostMixedcase mixedRequest 38).val.map Prod.snd ≠ some mixedRequest := by decide +kernel
  rw [hval] at hcode hbytes
  obtain rfl : code = 0 := by simpa using hcode
  exact ⟨b₁, hval, by simpa using hbytes, (hzero rfl).2.2.1⟩

end GoodbyeDpi
