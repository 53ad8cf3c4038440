import GoodbyeDpi.PacketProcess

/-!
# What the edits of the Host header do

Each edit is matched with a plain function on the bytes behind `Host:`, and its contract says which of these bytes
must be there for it to stay inside the payload.  The edits keep the header where it is, so the conditions for a
sequence of edits can be read off the original payload (`obeys_processHttp`).
-/

namespace GoodbyeDpi

open CSem Traced Access

/-! ### The HTTP test -/

/-- The buffer ends inside one of the method names, which makes `strncmp` run over its end. -/
def EndsInMethod (ms : List (List UInt8)) (b : List UInt8) : Prop := ∃ m ∈ ms, b <+: m ∧ b.length < m.length

instance (ms : List (List UInt8)) (b : List UInt8) : Decidable (EndsInMethod ms b) :=
  inferInstanceAs (Decidable (∃ m ∈ ms, _))

/-- The buffer starts with one of the method names. -/
def startsWithMethod (b : List UInt8) : Bool := httpMethods.any (·.isPrefixOf b)

/-! ### The bytes behind `Host:` -/

/-- The position of `Host:`, where `find_host_header` finds one. -/
def hostPos (b : List UInt8) : Option Nat := if b.length < 6 then none else findCi hostHeader (cstr b)

/-- The payload up to and including `Host:`, and the rest. -/
def splitHost (b : List UInt8) : Option (List UInt8 × List UInt8) :=
  (hostPos b).map fun j => (b.take (j + 5), b.drop (j + 5))

/-- The search for `Host:` stays inside the payload: it is followed by a byte, or a NUL stops the search. -/
def HostSearchInside (b : List UInt8) : Prop :=
  6 ≤ b.length → match findCi hostHeader (cstr b) with
    | some j => j + 5 < b.length
    | none => (0 : UInt8) ∈ b

instance (b : List UInt8) : Decidable (HostSearchInside b) := by
  unfold HostSearchInside
  split <;> infer_instance

def hostBlanks (r : List UInt8) : List UInt8 := r.takeWhile (!endsBlanks ·)

def hostValue (r : List UInt8) : List UInt8 := (r.dropWhile (!endsBlanks ·)).takeWhile (!endsValue ·)

def afterValue (r : List UInt8) : List UInt8 := (r.dropWhile (!endsBlanks ·)).dropWhile (!endsValue ·)

/-- The value with alternating case. -/
def mixValue (r : List UInt8) : List UInt8 := hostBlanks r ++ alternateCase 0 (hostValue r) ++ afterValue r

/-- A space follows `Host:`. -/
def hasSpace (r : List UInt8) : Bool := r.head? == some 32

theorem exists_of_hasSpace {r : List UInt8} (h : hasSpace r) : ∃ t, r = 32 :: t := by
  cases r with
  | nil => cases h
  | cons c t => exact ⟨t, by simpa [hasSpace] using h⟩

/-- The string behind the first byte and its NUL, moved left by one; the byte behind it stays. -/
def removeSpace (r : List UInt8) : List UInt8 := cstr r.tail ++ 0 :: r.tail.drop (cstr r.tail).length

/-- The bytes behind `Host:` without a space at the start. -/
def dropSpace (r : List UInt8) : List UInt8 := if hasSpace r then removeSpace r else r

/-- The string and its NUL, moved right by one over the next byte, behind a space. -/
def addSpace (r : List UInt8) : List UInt8 := 32 :: cstr r ++ 0 :: r.drop ((cstr r).length + 2)

/-- There is a byte behind the NUL that ends the string. -/
def RoomBehindNul (r : List UInt8) : Prop := (cstr r).length + 1 < r.length

instance (r : List UInt8) : Decidable (RoomBehindNul r) := inferInstanceAs (Decidable (_ < _))

/-- The prefix returned by `splitHost` ends with the first `Host:` and holds no NUL. -/
theorem splitHost_eq_some {b pre r : List UInt8} (h : splitHost b = some (pre, r)) :
    b = pre ++ r ∧ 6 ≤ b.length ∧ (0 : UInt8) ∉ pre ∧
      ∃ j, hostPos b = some j ∧ pre.length = j + 5 ∧ findCi hostHeader pre = some j := by
  unfold splitHost at h
  obtain ⟨j, hpos, heq⟩ := Option.map_eq_some_iff.1 h
  have hj := hpos
  unfold hostPos at hj
  by_cases h6 : b.length < 6
  · rw [if_pos h6] at hj
    cases hj
  · rw [if_neg h6] at hj
    obtain ⟨rfl, rfl⟩ := Prod.mk.inj heq
    have h5 : (hostHeader.map toLower).length = 5 := rfl
    have hlen := firstOcc_length hj
    rw [h5, List.length_map] at hlen
    have hpre : b.take (j + 5) = (cstr b).take (j + 5) := by
      obtain ⟨t, ht⟩ := cstr_isPrefix b
      conv_lhs => rw [← ht]
      rw [List.take_append_of_le_length hlen]
    refine ⟨(List.take_append_drop _ b).symm, by omega, ?_, j, hpos, ?_, ?_⟩
    · rw [hpre]
      intro hmem
      exact zero_notMem_cstr b (List.mem_of_mem_take hmem)
    · rw [hpre, List.length_take]
      omega
    · have htake := firstOcc_take_append (r := []) hj
      rw [h5, List.append_nil, ← List.map_take, ← hpre] at htake
      exact htake

/-- What stands behind `Host:` does not change where it is found. -/
theorem splitHost_append {b pre r r' : List UInt8} (h : splitHost b = some (pre, r)) (hr : r' ≠ []) :
    splitHost (pre ++ r') = some (pre, r') := by
  obtain ⟨-, -, hz, j, -, hlen, hj⟩ := splitHost_eq_some h
  have h5 : (hostHeader.map toLower).length = 5 := rfl
  have hr' : 0 < r'.length := List.length_pos_iff.2 hr
  have hfind : findCi hostHeader (cstr (pre ++ r')) = some j := by
    have htake := firstOcc_take_append (r := (cstr r').map toLower) hj
    rw [h5, ← List.map_take, ← hlen, List.take_length, ← List.map_append] at htake
    rw [cstr_append hz]
    exact htake
  have h6 : ¬ (pre ++ r').length < 6 := by
    rw [List.length_append]
    omega
  unfold splitHost hostPos
  rw [if_neg h6, hfind, Option.map_some, ← hlen, List.take_left, List.drop_left]

theorem hostSearchInside_iff {b pre r : List UInt8} (h : splitHost b = some (pre, r)) :
    HostSearchInside b ↔ r ≠ [] := by
  obtain ⟨hb, h6, hz, j, hpos, hlen, hj⟩ := splitHost_eq_some h
  unfold hostPos at hpos
  rw [if_neg (by omega)] at hpos
  unfold HostSearchInside
  rw [hpos, ← List.length_pos_iff]
  have hbl : b.length = pre.length + r.length := by rw [hb, List.length_append]
  simp only [h6, true_imp_iff]
  omega

theorem hostPos_eq_none_iff {b : List UInt8} : hostPos b = none ↔ splitHost b = none := by
  unfold splitHost
  rw [Option.map_eq_none_iff]

theorem split_value (r : List UInt8) : r = hostBlanks r ++ hostValue r ++ afterValue r := by
  unfold hostBlanks hostValue afterValue
  rw [List.append_assoc, List.takeWhile_append_dropWhile, List.takeWhile_append_dropWhile]

/-! ### Contracts -/

section

variable {P : Access Buf → Prop}

/-- The chain of `strncmp` calls on names none of which starts a later one: it leaves the buffer exactly when the
buffer ends inside a name. -/
theorem obeys_startsWithAny (hw : Watches P .payload) {b : List UInt8} {ms : List (List UInt8)}
    (hz : ∀ m ∈ ms, (0 : UInt8) ∉ m) (hfree : ms.Pairwise fun m m' => ¬ m <+: m') {Q : Bool → Prop} :
    Obeys P (startsWithAny b ms) Q ↔ ¬ EndsInMethod ms b ∧ Q (ms.any (·.isPrefixOf b)) := by
  induction ms with
  | nil => simp [startsWithAny, EndsInMethod]
  | cons m ms ih =>
    rw [List.pairwise_cons] at hfree
    have hzm : (0 : UInt8) ∉ m := hz m (by simp)
    have ih := ih (fun m' hm' => hz m' (List.mem_cons_of_mem m hm')) hfree.2
    simp only [startsWithAny, obeys_bind, obeys_strncmpEq hw hzm, List.any_cons]
    have hends : EndsInMethod (m :: ms) b ↔ (b <+: m ∧ b.length < m.length) ∨ EndsInMethod ms b := by
      simp [EndsInMethod]
    by_cases hm : m.isPrefixOf b
    · -- a later name that the buffer ends in would start with `m`
      have hms : ¬ EndsInMethod ms b := by
        intro hends'
        obtain ⟨m', hm', hpre, -⟩ := hends'
        exact hfree.1 m' hm' ((List.isPrefixOf_iff_prefix.1 hm).trans hpre)
      simp only [hm, ↓reduceIte, obeys_pure, Bool.true_or, hends, hms, or_false]
    · simp only [hm, Bool.false_eq_true, ↓reduceIte, Bool.false_or, ih, hends, not_or]
      exact and_assoc.symm

theorem obeys_packetIsHttp (hw : Watches P .payload) {p : Packet} {b : List UInt8} (hb : p.payload = some b)
    {Q : Bool → Prop} :
    Obeys P (packetIsHttp p) Q ↔
      if packetIsTcp p ∧ p.dstPort = 80 ∧ 3 ≤ p.payloadLen then
        ¬ EndsInMethod httpMethods b ∧ Q (startsWithMethod b)
      else Q false := by
  simp only [packetIsHttp, hb]
  split
  · exact obeys_startsWithAny hw (by decide) (by decide)
  · exact obeys_pure

private theorem drop_takeWhile_length (r : List UInt8) (p : UInt8 → Bool) :
    r.drop (r.takeWhile p).length = r.dropWhile p := by
  have h : (r.takeWhile p ++ r.dropWhile p).drop (r.takeWhile p).length = r.dropWhile p := List.drop_left
  rwa [List.takeWhile_append_dropWhile] at h

/-- A blank does not end the value, and a byte that ends the value ends the blanks. -/
theorem any_endsValue_iff (r : List UInt8) :
    (r.any endsBlanks ∧ (r.dropWhile (!endsBlanks ·)).any endsValue) ↔ r.any endsValue := by
  induction r with
  | nil => simp
  | cons c r ih =>
    by_cases hc : endsBlanks c
    · simp [hc]
    · have hv : endsValue c = false := by
        by_contra hv
        apply hc
        simp only [endsValue, Bool.not_eq_false, Bool.or_eq_true, beq_iff_eq] at hv
        rcases hv with (rfl | rfl) | rfl <;> rfl
      simpa [List.dropWhile_cons, hc, hv] using ih

theorem obeys_findHostHeader (hw : Watches P .payload) {b : List UInt8} {Q : Option Nat → Prop} :
    Obeys P (findHostHeader b b.length) Q ↔ HostSearchInside b ∧ Q (hostPos b) := by
  unfold findHostHeader HostSearchInside hostPos
  by_cases h6 : b.length < 6
  · simp only [h6, ↓reduceIte, obeys_pure, show ¬ 6 ≤ b.length by omega, false_imp_iff, true_and]
  · simp only [h6, ↓reduceIte, show 6 ≤ b.length by omega, true_imp_iff]
    rw [obeys_stristr hw (by decide) (by decide)]
    cases findCi hostHeader (cstr b) with
    | none => rfl
    | some j => rfl

/-- The common start of the edits: without a Host header the payload stays as it is, and otherwise the rest of the
edit works behind it. -/
private theorem obeys_atHost (hw : Watches P .payload) {b : List UInt8} {edit : Nat → CRun Buf (Int × List UInt8)}
    {Q : Int × List UInt8 → Prop} {R : List UInt8 × List UInt8 → Prop}
    (hedit : ∀ pre r j, b = pre ++ r → r ≠ [] → pre.length = j + 5 → (Obeys P (edit j) Q ↔ R (pre, r))) :
    (Obeys P (findHostHeader b b.length) fun pos => Obeys P (match pos with
      | none => pure (-1, b)
      | some j => edit j) Q) ↔ HostSearchInside b ∧ (splitHost b).elim (Q (-1, b)) R := by
  rw [obeys_findHostHeader hw]
  refine and_congr_right fun hin => ?_
  cases hs : splitHost b with
  | none =>
    rw [hostPos_eq_none_iff.2 hs]
    simp
  | some s =>
    obtain ⟨pre, r⟩ := s
    have hne := (hostSearchInside_iff hs).1 hin
    obtain ⟨hb, -, -, j, hpos, hlen, -⟩ := splitHost_eq_some hs
    rw [hpos]
    exact hedit pre r j hb hne hlen

/-- `apply_host_mixedcase` needs a byte that ends the value. -/
theorem obeys_applyHostMixedcase (hw : Watches P .payload) {b : List UInt8} {Q : Int × List UInt8 → Prop} :
    Obeys P (applyHostMixedcase b b.length) Q ↔
      HostSearchInside b ∧ (splitHost b).elim (Q (-1, b)) fun s =>
        s.2.any endsValue ∧ Q (if hostValue s.2 = [] then -1 else 0, s.1 ++ mixValue s.2) := by
  unfold applyHostMixedcase
  rw [obeys_bind]
  refine obeys_atHost hw fun pre r j hb _ hlen => ?_
  subst hb
  have hdrop : (pre ++ r).drop (pre.length + (hostBlanks r).length) = r.dropWhile (!endsBlanks ·) := by
    rw [List.drop_append, List.drop_eq_nil_of_le (by omega), Nat.add_sub_cancel_left, List.nil_append]
    exact drop_takeWhile_length r _
  have hsplit : pre ++ r = (pre ++ hostBlanks r) ++ hostValue r ++ afterValue r := by
    conv_lhs => rw [split_value r]
    simp only [List.append_assoc]
  have hzero : (0 : UInt8) ∉ hostValue r := by
    intro hmem
    have := List.mem_takeWhile_imp hmem
    simp [endsValue] at this
  simp only [obeys_bind, obeys_scanFrom hw, ← hlen, List.drop_left]
  have hblanks : r.takeWhile (!endsBlanks ·) = hostBlanks r := rfl
  have hvalue : (r.dropWhile (!endsBlanks ·)).takeWhile (!endsValue ·) = hostValue r := rfl
  rw [hblanks, hdrop, hvalue, Nat.add_sub_cancel_left, ← and_assoc, any_endsValue_iff]
  refine and_congr Iff.rfl ?_
  by_cases hv : hostValue r = []
  · have hmix : mixValue r = r := by
      conv_rhs => rw [split_value r]
      simp [mixValue, hv, alternateCase]
    simp only [hv, List.length_nil, Nat.lt_irrefl, ↓reduceIte, obeys_pure, hmix]
  · have hpos : 0 < (hostValue r).length := List.length_pos_iff.2 hv
    simp only [hpos, hv, ↓reduceIte, obeys_bind, obeys_pure]
    rw [hsplit, ← List.length_append, obeys_mixCase hw hzero, mixValue]
    simp only [List.append_assoc]

/-- `apply_host_removespace` needs a NUL behind the space. -/
theorem obeys_applyHostRemovespace (hw : Watches P .payload) {b : List UInt8} {Q : Int × List UInt8 → Prop} :
    Obeys P (applyHostRemovespace b b.length) Q ↔
      HostSearchInside b ∧ (splitHost b).elim (Q (-1, b)) fun s =>
        (hasSpace s.2 → (0 : UInt8) ∈ s.2.tail) ∧ Q (if hasSpace s.2 then 0 else -1, s.1 ++ dropSpace s.2) := by
  unfold applyHostRemovespace
  rw [obeys_bind]
  refine obeys_atHost hw fun pre r j hb hne hlen => ?_
  obtain ⟨c, t, rfl⟩ := List.exists_cons_of_ne_nil hne
  subst hb
  have hlt : pre.length < (pre ++ c :: t).length := by simp
  have hget : (pre ++ c :: t)[pre.length] = c := by simp
  simp only [obeys_bind, obeys_load hw, ← hlen, hlt, exists_true_left, hget, hasSpace, dropSpace, List.head?_cons,
    List.tail_cons]
  by_cases hc : c = 32
  · subst hc
    have hdrop : (pre ++ 32 :: t).drop (pre.length + 1) = t := by
      rw [List.drop_length_add_append]
      rfl
    simp only [↓reduceIte, beq_self_eq_true, true_imp_iff, obeys_bind, obeys_strlen hw, hdrop, obeys_pure,
      obeys_memmove hw (Nat.succ_pos _)]
    refine and_congr_right fun hz => ?_
    -- the string behind the space and its NUL are written over the space
    obtain ⟨htake, hlt'⟩ := take_cstr_length_succ hz
    have hover := overwrite_append pre (32 :: t) 0 (cstr t ++ [0])
    rw [Nat.add_zero] at hover
    rw [htake, hover]
    simp only [overwrite, List.take_zero, List.nil_append, List.length_append, List.length_cons, List.length_nil,
      Nat.zero_add, List.drop_succ_cons, List.append_assoc, List.cons_append, removeSpace, List.tail_cons]
    constructor
    · intro h
      exact h.2.2
    · intro h
      exact ⟨by omega, by omega, h⟩
  · have hs' : (some c == some (32 : UInt8)) = false := by simpa using hc
    simp only [hc, ↓reduceIte, obeys_pure, hs', Bool.false_eq_true, false_imp_iff, true_and]

theorem RoomBehindNul.zero_mem {r : List UInt8} (h : RoomBehindNul r) : (0 : UInt8) ∈ r := by
  by_contra hz
  have := congrArg List.length (cstr_of_notMem hz)
  unfold RoomBehindNul at h
  omega

/-- `apply_additional_space` needs a byte behind the NUL. -/
theorem obeys_applyAdditionalSpace (hw : Watches P .payload) {b : List UInt8} {Q : Int × List UInt8 → Prop} :
    Obeys P (applyAdditionalSpace b b.length) Q ↔
      HostSearchInside b ∧ (splitHost b).elim (Q (-1, b)) fun s =>
        RoomBehindNul s.2 ∧ Q (0, s.1 ++ addSpace s.2) := by
  unfold applyAdditionalSpace
  rw [obeys_bind]
  refine obeys_atHost hw fun pre r j hb hne hlen => ?_
  subst hb
  simp only [obeys_bind, obeys_strlen hw, ← hlen, List.drop_left, Nat.succ_pos, ↓reduceIte,
    obeys_memmove hw (Nat.succ_pos _), obeys_store hw, obeys_pure]
  by_cases hz : (0 : UInt8) ∈ r
  · obtain ⟨htake, hlt⟩ := take_cstr_length_succ hz
    have hover := overwrite_append pre r 1 (cstr r ++ [0])
    have hover' := overwrite_append pre (overwrite r 1 (cstr r ++ [0])) 0 [32]
    have hadd : overwrite (overwrite r 1 (cstr r ++ [0])) 0 [32] = addSpace r := by
      obtain ⟨c, t, rfl⟩ := List.exists_cons_of_ne_nil hne
      simp [overwrite, addSpace]
      rw [Nat.add_comm 1, List.drop_succ_cons]
    rw [Nat.add_zero] at hover'
    rw [htake, hover, hover', hadd]
    simp only [hz, true_and, List.length_append, List.length_singleton]
    unfold RoomBehindNul
    -- the string and its NUL are moved over one byte more than they had
    constructor
    · rintro ⟨-, hroom, -, hQ⟩
      exact ⟨by omega, hQ⟩
    · rintro ⟨hroom, hQ⟩
      have hlen' : (overwrite r 1 (cstr r ++ [0])).length = r.length :=
        length_overwrite (by rw [List.length_append, List.length_singleton]; omega)
      exact ⟨by omega, by omega, by omega, hQ⟩
  · have hroom : ¬ RoomBehindNul r := fun h => hz h.zero_mem
    simp only [hz, false_and, hroom]

end

/-! ### Edits up to letter case -/

theorem map_toLower_mixValue (r : List UInt8) : (mixValue r).map toLower = r.map toLower := by
  conv_rhs => rw [split_value r]
  simp only [mixValue, List.map_append, map_toLower_alternateCase]

section

variable {r r' : List UInt8}

theorem length_eq_of_ci (h : r'.map toLower = r.map toLower) : r'.length = r.length := by
  have := congrArg List.length h
  rwa [List.length_map, List.length_map] at this

theorem hasSpace_congr (h : r'.map toLower = r.map toLower) : hasSpace r' = hasSpace r := by
  unfold hasSpace
  cases r with
  | nil =>
    have : r' = [] := List.map_eq_nil_iff.1 h
    rw [this]
  | cons c r =>
    cases r' with
    | nil => cases h
    | cons c' r' =>
      have hc : toLower c' = toLower c := (List.cons.inj h).1
      have hspace : c' = 32 ↔ c = 32 := by
        rw [← toLower_eq_space, hc, toLower_eq_space]
      simp [hspace]

theorem zero_mem_tail_congr (h : r'.map toLower = r.map toLower) :
    (0 : UInt8) ∈ r'.tail ↔ (0 : UInt8) ∈ r.tail := by
  apply zero_mem_congr
  rw [List.map_tail, List.map_tail, h]

theorem roomBehindNul_congr (h : r'.map toLower = r.map toLower) : RoomBehindNul r' ↔ RoomBehindNul r := by
  have hcstr : (cstr r').length = (cstr r).length := by
    apply length_eq_of_ci
    rw [map_toLower_cstr, map_toLower_cstr, h]
  unfold RoomBehindNul
  rw [hcstr, length_eq_of_ci h]

end

theorem length_removeSpace {r : List UInt8} (h : (0 : UInt8) ∈ r.tail) : (removeSpace r).length = r.length := by
  have hlt := (take_cstr_length_succ h).2
  have htail := List.length_tail (l := r)
  unfold removeSpace
  rw [List.length_append, List.length_cons, List.length_drop]
  omega

theorem length_addSpace {r : List UInt8} (h : RoomBehindNul r) : (addSpace r).length = r.length := by
  unfold RoomBehindNul at h
  unfold addSpace
  rw [List.length_append, List.length_cons, List.length_cons, List.length_drop]
  omega

theorem cstr_removeSpace (r : List UInt8) : cstr (removeSpace r) = cstr r.tail := by
  unfold removeSpace
  rw [cstr_append (zero_notMem_cstr _)]
  simp [cstr]

/-- Removing the space leaves room behind the NUL. -/
theorem roomBehindNul_removeSpace {r : List UInt8} (h : (0 : UInt8) ∈ r.tail) : RoomBehindNul (removeSpace r) := by
  have hlen := length_removeSpace h
  have hlt := (take_cstr_length_succ h).2
  have htail := List.length_tail (l := r)
  unfold RoomBehindNul
  rw [cstr_removeSpace, hlen]
  omega

/-- Adding a space undoes its removal. -/
theorem addSpace_removeSpace {r : List UInt8} (hs : hasSpace r) (h : (0 : UInt8) ∈ r.tail) :
    addSpace (removeSpace r) = r := by
  obtain ⟨c, t, rfl⟩ : ∃ c t, r = c :: t := by
    cases r with
    | nil => cases h
    | cons c t => exact ⟨c, t, rfl⟩
  obtain rfl : c = 32 := by simpa [hasSpace] using hs
  rw [List.tail_cons] at h
  obtain ⟨htake, hlt⟩ := take_cstr_length_succ h
  have hdrop : (removeSpace (32 :: t)).drop ((cstr t).length + 2) = t.drop ((cstr t).length + 1) := by
    unfold removeSpace
    rw [List.tail_cons, List.drop_length_add_append, List.drop_succ_cons, List.drop_drop]
  calc addSpace (removeSpace (32 :: t))
      = 32 :: (cstr t ++ [0] ++ t.drop ((cstr t).length + 1)) := by
        unfold addSpace
        rw [cstr_removeSpace, List.tail_cons, hdrop]
        simp
    _ = 32 :: t := by rw [← htake, List.take_append_drop]

end GoodbyeDpi
