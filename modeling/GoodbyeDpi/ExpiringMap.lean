import Mathlib.Data.List.Induction
import Mathlib.Order.Bounds.Basic

/-!
# Maps that forget

A map from keys to the time each was last touched, from which a sweep drops what has become stale.  The first part
says what such a map holds after any sequence of calls in terms of the calls alone.  The second part is about a list
of stamped items, several of which may have one key: it stands for the map that has the latest stamp of every key,
and adding, restamping and sweeping items keep it so.
-/

/-- The time each key was last touched. -/
abbrev ExpiringMap (K T : Type) := K → Option T

namespace ExpiringMap

/-- What a call does to the map: touch a key, touch it only when it is there, or sweep. -/
inductive Event (K T : Type) where
  | touch (k : K) (now : T)
  | probe (k : K) (now : T)
  | sweep (now : T)

variable {K T C : Type} [DecidableEq K] (stale : T → T → Bool)

/-- `stale t now`: what was last touched at `t` is dropped by a sweep at `now`. -/
def step (m : ExpiringMap K T) : Event K T → ExpiringMap K T
  | .touch k now => fun x => if x = k then some now else m x
  | .probe k now => fun x => if x = k ∧ (m k).isSome then some now else m x
  | .sweep now => fun x => (m x).filter fun t => !stale t now

def empty : ExpiringMap K T := fun _ => none

/-- The map after a sequence of calls, each of which is an event. -/
def run (event : C → Event K T) (cs : List C) : ExpiringMap K T := cs.foldl (fun m c => step stale m (event c)) empty

/-- The event touches `k` at `t` in the map `m`. -/
def Touches (m : ExpiringMap K T) (k : K) (t : T) : Event K T → Prop
  | .touch x now => x = k ∧ now = t
  | .probe x now => x = k ∧ now = t ∧ (m k).isSome
  | .sweep _ => False

/-- The last touch of `k` is at `t`, and no sweep since then found it stale. -/
def LastTouch (event : C → Event K T) (cs : List C) (k : K) (t : T) : Prop :=
  ∃ pre c post, cs = pre ++ c :: post ∧ Touches (run stale event pre) k t (event c) ∧
    (∀ mid d rest, post = mid ++ d :: rest → ∀ t', ¬ Touches (run stale event (pre ++ c :: mid)) k t' (event d)) ∧
    ∀ d ∈ post, ∀ now, event d = .sweep now → stale t now = false

variable {stale} {event : C → Event K T} {m : ExpiringMap K T} {k : K} {t : T}

theorem run_append_singleton (cs : List C) (c : C) :
    run stale event (cs ++ [c]) = step stale (run stale event cs) (event c) := by
  unfold run
  rw [List.foldl_append]
  rfl

theorem step_probe_of_isSome (h : (m k).isSome) (now : T) :
    step stale m (.probe k now) = step stale m (.touch k now) := by
  simp [step, h]

theorem step_probe_of_eq_none (h : m k = none) (now : T) : step stale m (.probe k now) = m := by
  simp [step, h]

theorem step_of_touches {e : Event K T} (h : Touches m k t e) : step stale m e k = some t := by
  cases e with
  | touch x now =>
    obtain ⟨rfl, rfl⟩ := h
    simp [step]
  | probe x now =>
    obtain ⟨rfl, rfl, hm⟩ := h
    simp [step, hm]
  | sweep now => cases h

/-- A key that is not touched keeps its time, unless a sweep finds it stale. -/
theorem step_of_not_touches {e : Event K T} (h : ∀ t', ¬ Touches m k t' e) :
    step stale m e k = some t ↔ m k = some t ∧ ∀ now, e = .sweep now → stale t now = false := by
  cases e with
  | touch x now =>
    have hne : k ≠ x := fun hk => h now ⟨hk.symm, rfl⟩
    simp [step, hne]
  | probe x now =>
    have hne : ¬ (k = x ∧ (m x).isSome) := by
      rintro ⟨rfl, hm⟩
      exact h now ⟨rfl, rfl, hm⟩
    simp [step, hne]
  | sweep now => simp [step, Option.filter_eq_some_iff]

theorem LastTouch.of_touches {cs : List C} {c : C} (h : Touches (run stale event cs) k t (event c)) :
    LastTouch stale event (cs ++ [c]) k t := by
  refine ⟨cs, c, [], rfl, h, ?_, ?_⟩
  · intro mid d rest hnil
    simp at hnil
  · intro d hd
    cases hd

private theorem split_append_singleton {α : Type} {l pre post : List α} {x y : α} (h : l ++ [x] = pre ++ y :: post) :
    (l = pre ∧ x = y ∧ post = []) ∨ ∃ post', post = post' ++ [x] ∧ l = pre ++ y :: post' := by
  rcases List.eq_nil_or_concat post with rfl | ⟨post, z, rfl⟩
  · obtain ⟨hl, hx⟩ := List.append_inj' h rfl
    cases hx
    exact Or.inl ⟨hl, rfl, rfl⟩
  · rw [List.concat_eq_append] at h ⊢
    rw [← List.cons_append, ← List.append_assoc] at h
    obtain ⟨hl, hx⟩ := List.append_inj' h rfl
    cases hx
    exact Or.inr ⟨post, rfl, hl⟩

/-- A call that does not touch `k` keeps its last touch, unless it is a sweep that finds it stale. -/
theorem lastTouch_append_iff {cs : List C} {c : C} (h : ∀ t', ¬ Touches (run stale event cs) k t' (event c)) :
    LastTouch stale event (cs ++ [c]) k t ↔
      LastTouch stale event cs k t ∧ ∀ now, event c = .sweep now → stale t now = false := by
  constructor
  · rintro ⟨pre, d, post, hcs, htouch, hlater, hsweep⟩
    -- the touch is not the last call, so the last call is the end of `post`
    rcases split_append_singleton hcs with ⟨rfl, rfl, -⟩ | ⟨post, rfl, rfl⟩
    · exact absurd htouch (h t)
    · refine ⟨⟨pre, d, post, rfl, htouch, ?_, ?_⟩, ?_⟩
      · intro mid x rest hpost
        exact hlater mid x (rest ++ [c]) (by simp [hpost])
      · intro x hx
        exact hsweep x (List.mem_append_left _ hx)
      · exact hsweep c (List.mem_append_right _ (List.mem_singleton_self c))
  · rintro ⟨⟨pre, d, post, rfl, htouch, hlater, hsweep⟩, hc⟩
    refine ⟨pre, d, post ++ [c], by simp, htouch, ?_, ?_⟩
    · intro mid x rest hpost
      rcases split_append_singleton hpost with ⟨rfl, rfl, -⟩ | ⟨rest, -, hpost⟩
      · exact h
      · exact hlater mid x rest hpost
    · intro x hx
      rcases List.mem_append.1 hx with hx | hx
      · exact hsweep x hx
      · rw [List.mem_singleton.1 hx]
        exact hc

omit [DecidableEq K] in
theorem Touches.time_unique {e : Event K T} {t' : T} (h : Touches m k t e) (h' : Touches m k t' e) : t = t' := by
  cases e with
  | touch x now => exact h.2.symm.trans h'.2
  | probe x now => exact h.2.1.symm.trans h'.2.1
  | sweep now => cases h

/-- The last touch of a key that the last call touches is that call. -/
theorem LastTouch.time_eq {cs : List C} {c : C} {t' : T} (hlast : LastTouch stale event (cs ++ [c]) k t)
    (h : Touches (run stale event cs) k t' (event c)) : t = t' := by
  obtain ⟨pre, d, post, hcs, htouch, hlater, -⟩ := hlast
  rcases split_append_singleton hcs with ⟨rfl, rfl, -⟩ | ⟨post, rfl, rfl⟩
  · exact htouch.time_unique h
  · exact absurd h (hlater post c [] rfl t')

/-- After any sequence of calls the map holds a key exactly when it has a last touch that no sweep found stale, and
then the time of that touch. -/
theorem run_eq_some_iff (cs : List C) : run stale event cs k = some t ↔ LastTouch stale event cs k t := by
  induction cs using List.reverseRecOn generalizing t with
  | nil =>
    constructor
    · intro h
      cases h
    · rintro ⟨pre, c, post, hnil, -⟩
      simp at hnil
  | append_singleton cs c ih =>
    rw [run_append_singleton]
    by_cases h : ∃ t', Touches (run stale event cs) k t' (event c)
    · obtain ⟨t', h⟩ := h
      rw [step_of_touches h, Option.some.injEq]
      constructor
      · rintro rfl
        exact .of_touches h
      · intro hlast
        exact (hlast.time_eq h).symm
    · rw [not_exists] at h
      rw [step_of_not_touches h, lastTouch_append_iff h, ih]

/-! ### Lists of stamped items -/

section

variable {E K T : Type} [LinearOrder T] (key : E → K) (stamp : E → T)

/-- The stamps of the items with a key. -/
def stampsOf (l : List E) (k : K) : Set T := {t | ∃ e ∈ l, key e = k ∧ stamp e = t}

/-- The list stands for the map: a key that is not in the map has no item, and a key of the map has its time as the
latest stamp of an item. -/
structure Represents (l : List E) (m : ExpiringMap K T) : Prop where
  absent : ∀ k, m k = none → stampsOf key stamp l k = ∅
  present : ∀ k t, m k = some t → IsGreatest (stampsOf key stamp l k) t

variable {key stamp} {l : List E} {m : ExpiringMap K T} {stale : T → T → Bool}

namespace Represents

theorem nil : Represents key stamp [] (empty : ExpiringMap K T) where
  absent k _ := by
    ext t
    simp [stampsOf]
  present k t h := by cases h

/-- The map holds a key exactly when the list has an item with it. -/
theorem isSome_iff (h : Represents key stamp l m) (k : K) : (m k).isSome ↔ ∃ e ∈ l, key e = k := by
  cases hm : m k with
  | none =>
    have hnone := h.absent k hm
    constructor
    · intro hs
      cases hs
    · rintro ⟨e, he, hk⟩
      exact absurd (show stamp e ∈ stampsOf key stamp l k from ⟨e, he, hk, rfl⟩) (by simp [hnone])
  | some t =>
    obtain ⟨⟨e, he, hk, -⟩, -⟩ := h.present k t hm
    exact ⟨fun _ => ⟨e, he, hk⟩, fun _ => rfl⟩

/-- A list in which `k` has the latest stamp `now`, and which is as before for the other keys. -/
theorem of_touch (h : Represents key stamp l m) {l' : List E} {m' : ExpiringMap K T} {k : K} {t : T}
    (hk : IsGreatest (stampsOf key stamp l' k) t)
    (hother : ∀ x, x ≠ k → stampsOf key stamp l' x = stampsOf key stamp l x) (hm' : m' k = some t)
    (hmother : ∀ x, x ≠ k → m' x = m x) : Represents key stamp l' m' where
  absent x hx := by
    by_cases hxk : x = k
    · rw [hxk, hm'] at hx
      cases hx
    · rw [hother x hxk]
      exact h.absent x (by rw [← hmother x hxk, hx])
  present x u hx := by
    by_cases hxk : x = k
    · rw [hxk, hm'] at hx
      cases hx
      rw [hxk]
      exact hk
    · rw [hother x hxk]
      exact h.present x u (by rw [← hmother x hxk, hx])

variable [DecidableEq K]

/-- A new item with the latest time. -/
theorem append (h : Represents key stamp l m) {e : E} (hclock : ∀ f ∈ l, stamp f ≤ stamp e) :
    Represents key stamp (l ++ [e]) (step stale m (.touch (key e) (stamp e))) := by
  apply h.of_touch (k := key e) (t := stamp e)
  · refine ⟨⟨e, by simp, rfl, rfl⟩, ?_⟩
    rintro t ⟨f, hf, -, rfl⟩
    rcases List.mem_append.1 hf with hf | hf
    · exact hclock f hf
    · rw [List.mem_singleton.1 hf]
  · intro x hx
    ext t
    constructor
    · rintro ⟨f, hf, hkey, ht⟩
      rcases List.mem_append.1 hf with hf | hf
      · exact ⟨f, hf, hkey, ht⟩
      · rw [List.mem_singleton.1 hf] at hkey
        exact absurd hkey.symm hx
    · rintro ⟨f, hf, hkey, ht⟩
      exact ⟨f, List.mem_append_left _ hf, hkey, ht⟩
  · simp [step]
  · intro x hx
    simp [step, hx]

/-- An item that gets the latest time. -/
theorem restamp (h : Represents key stamp l m) {i : Nat} {e f : E} (hi : l[i]? = some e) (hkey : key f = key e)
    (hclock : ∀ g ∈ l, stamp g ≤ stamp f) :
    Represents key stamp (l.set i f) (step stale m (.touch (key e) (stamp f))) := by
  obtain ⟨hlt, he⟩ := List.getElem?_eq_some_iff.1 hi
  apply h.of_touch (k := key e) (t := stamp f)
  · refine ⟨⟨f, List.mem_set hlt f, hkey, rfl⟩, ?_⟩
    rintro t ⟨g, hg, -, rfl⟩
    rcases List.mem_or_eq_of_mem_set hg with hg | rfl
    · exact hclock g hg
    · exact le_refl _
  · intro x hx
    ext t
    constructor
    · rintro ⟨g, hg, hgk, ht⟩
      rcases List.mem_or_eq_of_mem_set hg with hg | rfl
      · exact ⟨g, hg, hgk, ht⟩
      · exact absurd (hgk.symm.trans hkey) hx
    · rintro ⟨g, hg, hgk, ht⟩
      -- an item with another key is not the one that is replaced
      obtain ⟨j, hj, rfl⟩ := List.mem_iff_getElem.1 hg
      have hji : i ≠ j := by
        rintro rfl
        rw [he] at hgk
        exact hx hgk.symm
      refine ⟨l[j], ?_, hgk, ht⟩
      rw [← List.getElem_set_ne hji (by simpa using hj)]
      exact List.getElem_mem _
  · simp [step]
  · intro x hx
    simp [step, hx]

/-- A sweep, when a later stamp is never staler than an earlier one. -/
theorem sweep (h : Represents key stamp l m) {now : T} (hmono : ∀ t t', t ≤ t' → stale t' now → stale t now) :
    Represents key stamp (l.filter fun e => !stale (stamp e) now) (step stale m (.sweep now)) where
  absent k hk := by
    ext t
    simp only [Set.mem_empty_iff_false, iff_false]
    rintro ⟨e, he, hkey, rfl⟩
    obtain ⟨he, hfresh⟩ := List.mem_filter.1 he
    cases hm : m k with
    | none => exact absurd (show stamp e ∈ stampsOf key stamp l k from ⟨e, he, hkey, rfl⟩) (by simp [h.absent k hm])
    | some t =>
      -- the latest stamp of the key is stale, so this one is
      have hle : stamp e ≤ t := (h.present k t hm).2 ⟨e, he, hkey, rfl⟩
      have hstale : stale t now := by simpa [step, hm] using hk
      simp [hmono _ _ hle hstale] at hfresh
  present k t hk := by
    obtain ⟨hm, hfresh⟩ := Option.filter_eq_some_iff.1 hk
    obtain ⟨⟨e, he, hkey, hst⟩, hle⟩ := h.present k t hm
    refine ⟨⟨e, List.mem_filter.2 ⟨he, by rw [hst]; exact hfresh⟩, hkey, hst⟩, ?_⟩
    rintro t' ⟨f, hf, hfk, rfl⟩
    exact hle ⟨f, (List.mem_filter.1 hf).1, hfk, rfl⟩

end Represents

end

end ExpiringMap
