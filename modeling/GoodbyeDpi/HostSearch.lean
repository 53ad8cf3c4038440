import GoodbyeDpi.PacketProcessSpec

/-!
# Where the Host header is looked for

An HTTP/1.x request is a request line, some field lines, an empty line and a body.  `find_host_header` looks for the
text `Host:` in the whole of it, with no regard to its lines.  It finds the first field with the name `Host`, and
nothing in a request without one, exactly when the text does not occur in anything that stands before that field.
-/

namespace GoodbyeDpi

open CSem Traced Access

/-! ### Requests -/

/-- The byte may stand in a line: it is not a NUL, a CR or an LF. -/
def InLine (c : UInt8) : Prop := c ≠ 0 ∧ c ≠ 13 ∧ c ≠ 10

instance (c : UInt8) : Decidable (InLine c) := inferInstanceAs (Decidable (_ ∧ _))

/-- A field of the header; its value includes the white space around it. -/
structure FieldLine where
  name : List UInt8
  value : List UInt8
  name_ne : name ≠ []
  name_inLine : ∀ c ∈ name, InLine c ∧ c ≠ 58
  value_inLine : ∀ c ∈ value, InLine c

namespace FieldLine

/-- The line without its CRLF. -/
def line (f : FieldLine) : List UInt8 := f.name ++ 58 :: f.value

/-- The name of the field is `Host`. -/
def isHost (f : FieldLine) : Bool := f.name.map toLower == ascii "host"

theorem line_inLine (f : FieldLine) : ∀ c ∈ f.line, InLine c := by
  intro c hc
  rcases List.mem_append.1 hc with h | h
  · exact (f.name_inLine c h).1
  · rcases List.mem_cons.1 h with rfl | h
    · decide
    · exact f.value_inLine c h

end FieldLine

/-- The CRLF that ends a line. -/
def crlf : List UInt8 := [13, 10]

structure HttpRequest where
  method : List UInt8
  target : List UInt8
  minor : UInt8
  fields : List FieldLine
  body : List UInt8
  method_inLine : ∀ c ∈ method, InLine c
  target_inLine : ∀ c ∈ target, InLine c
  minor_digit : 48 ≤ minor ∧ minor ≤ 57

namespace HttpRequest

variable (req : HttpRequest)

def requestLine : List UInt8 := req.method ++ 32 :: (req.target ++ 32 :: (ascii "HTTP/1." ++ [req.minor]))

/-- The bytes of the fields with their CRLFs. -/
def fieldBytes (fs : List FieldLine) : List UInt8 := fs.flatMap fun f => f.line ++ crlf

def bytes : List UInt8 := req.requestLine ++ crlf ++ fieldBytes req.fields ++ crlf ++ req.body

/-- The offset of the first field with the name `Host` in the bytes of the fields. -/
def firstHost : List FieldLine → Option Nat
  | [] => none
  | f :: fs => if f.isHost then some 0 else (firstHost fs).map (f.line.length + 2 + ·)

/-- The start of the first line with the name `Host`. -/
def hostOffset : Option Nat := (firstHost req.fields).map (req.requestLine.length + 2 + ·)

/-- What stands before the first field with the name `Host`: the lines, and in a request without such a field the body
up to its first NUL as well. -/
def beforeHost : List (List UInt8) :=
  req.requestLine :: (req.fields.takeWhile (!·.isHost)).map FieldLine.line ++
    if req.fields.any (·.isHost) then [] else [cstr req.body]

theorem requestLine_inLine : ∀ c ∈ req.requestLine, InLine c := by
  have hascii : ∀ c ∈ ascii "HTTP/1.", InLine c := by decide +kernel
  have hminor : InLine req.minor := by
    have h := req.minor_digit
    refine ⟨?_, ?_, ?_⟩
    · rintro h0
      rw [h0] at h
      exact absurd h.1 (by decide)
    · rintro h0
      rw [h0] at h
      exact absurd h.1 (by decide)
    · rintro h0
      rw [h0] at h
      exact absurd h.1 (by decide)
  intro c hc
  simp only [requestLine, List.mem_append, List.mem_cons, List.not_mem_nil, or_false] at hc
  rcases hc with h | rfl | h | rfl | h | rfl
  · exact req.method_inLine c h
  · decide
  · exact req.target_inLine c h
  · decide
  · exact hascii c h
  · exact hminor

end HttpRequest

/-! ### The search, line by line -/

private theorem findCi_line {line rest : List UInt8} :
    findCi hostHeader (line ++ crlf ++ rest) =
      (findCi hostHeader line).or ((findCi hostHeader rest).map (line.length + 2 + ·)) := by
  have hne : hostHeader.map toLower ≠ [] := by decide
  have hmap : (line ++ crlf ++ rest).map toLower = line.map toLower ++ 13 :: ([] ++ 10 :: rest.map toLower) := by
    simp [crlf, toLower]
  unfold findCi
  rw [hmap, firstOcc_append_cons hne (by decide), firstOcc_append_cons hne (by decide), List.length_map]
  cases firstOcc (hostHeader.map toLower) (line.map toLower) with
  | some j => rfl
  | none =>
    simp only [firstOcc, List.isEmpty_iff, hne, ↓reduceIte, Option.none_or, Option.map_map, List.length_nil]
    congr 1
    funext j
    simp only [Function.comp_apply]
    omega

/-- What is found inside a line is found before everything behind the line. -/
private theorem findCi_ne_behind {line : List UInt8} {j : Nat} (h : findCi hostHeader line = some j)
    (behind : Option Nat) : some j ≠ behind.map (line.length + 2 + ·) := by
  intro heq
  obtain ⟨k, -, hk⟩ := Option.map_eq_some_iff.1 heq.symm
  have hlen := firstOcc_length h
  simp only [List.length_map] at hlen
  omega

private theorem findCi_of_isHost {f : FieldLine} (h : f.isHost) : findCi hostHeader f.line = some 0 := by
  have hname : f.name.map toLower = ascii "host" := by simpa [FieldLine.isHost] using h
  have hline : f.line.map toLower = ascii "host" ++ 58 :: f.value.map toLower := by
    rw [FieldLine.line, List.map_append, List.map_cons, hname]
    rfl
  unfold findCi
  rw [hline]
  rfl

/-- The search through the fields. -/
private theorem findCi_fieldBytes_iff (fs : List FieldLine) (t : List UInt8) :
    findCi hostHeader (HttpRequest.fieldBytes fs ++ crlf ++ t) = HttpRequest.firstHost fs ↔
      (∀ f ∈ fs.takeWhile (!·.isHost), findCi hostHeader f.line = none) ∧
        (fs.any (·.isHost) = false → findCi hostHeader t = none) := by
  induction fs with
  | nil =>
    have hnil : findCi hostHeader ([] ++ crlf ++ t) = (findCi hostHeader t).map (0 + 2 + ·) := findCi_line
    simp only [HttpRequest.fieldBytes, List.flatMap_nil, HttpRequest.firstHost]
    rw [hnil]
    simp
  | cons f fs ih =>
    have hsplit : HttpRequest.fieldBytes (f :: fs) ++ crlf ++ t =
        f.line ++ crlf ++ (HttpRequest.fieldBytes fs ++ crlf ++ t) := by
      simp only [HttpRequest.fieldBytes, List.flatMap_cons, List.append_assoc]
    rw [hsplit, findCi_line, HttpRequest.firstHost]
    cases hf : f.isHost with
    | true =>
      rw [findCi_of_isHost hf]
      simp [hf]
    | false =>
      cases hline : findCi hostHeader f.line with
      | some j =>
        have hno := findCi_ne_behind hline (HttpRequest.firstHost fs)
        simp [hf, hline, hno]
      | none =>
        have hinj : Function.Injective (f.line.length + 2 + · : Nat → Nat) := fun a b h => Nat.add_left_cancel h
        rw [Option.none_or, if_neg (by simp), (Option.map_injective hinj).eq_iff, ih]
        simp [hf, hline]

/-- Where the search through a whole request ends. -/
private theorem findCi_request_iff (req : HttpRequest) :
    findCi hostHeader (req.requestLine ++ crlf ++ (HttpRequest.fieldBytes req.fields ++ crlf ++ cstr req.body)) =
      req.hostOffset ↔ ∀ t ∈ req.beforeHost, findCi hostHeader t = none := by
  rw [findCi_line, HttpRequest.hostOffset]
  cases hline : findCi hostHeader req.requestLine with
  | some j =>
    have hno := findCi_ne_behind hline (HttpRequest.firstHost req.fields)
    simp [HttpRequest.beforeHost, hline, hno]
  | none =>
    have hinj : Function.Injective (req.requestLine.length + 2 + · : Nat → Nat) := fun a b h => Nat.add_left_cancel h
    rw [Option.none_or, (Option.map_injective hinj).eq_iff, findCi_fieldBytes_iff]
    cases hany : req.fields.any (·.isHost) with
    | true => simp [HttpRequest.beforeHost, hline, hany]
    | false => simp [HttpRequest.beforeHost, hline, hany, or_imp, forall_and]

/-! ### `find_host_header` -/

private theorem zero_notMem_of_inLine {s : List UInt8} (h : ∀ c ∈ s, InLine c) : (0 : UInt8) ∉ s := by
  intro hmem
  exact (h 0 hmem).1 rfl

private theorem zero_notMem_fieldBytes (fs : List FieldLine) : (0 : UInt8) ∉ HttpRequest.fieldBytes fs := by
  induction fs with
  | nil => simp [HttpRequest.fieldBytes]
  | cons f fs ih =>
    have hline := zero_notMem_of_inLine f.line_inLine
    simp only [HttpRequest.fieldBytes, List.flatMap_cons, List.mem_append, not_or] at ih ⊢
    exact ⟨⟨hline, by decide⟩, ih⟩

/-- The string in the buffer of a request: the head of the request, and its body up to a NUL. -/
private theorem cstr_request (req : HttpRequest) (tail : List UInt8) :
    cstr (req.bytes ++ 0 :: tail) =
      req.requestLine ++ crlf ++ (HttpRequest.fieldBytes req.fields ++ crlf ++ cstr req.body) := by
  have hhead : (0 : UInt8) ∉ req.requestLine ++ crlf ++ HttpRequest.fieldBytes req.fields ++ crlf := by
    have hcrlf : (0 : UInt8) ∉ crlf := by decide
    simp only [List.mem_append, not_or]
    exact ⟨⟨⟨zero_notMem_of_inLine req.requestLine_inLine, hcrlf⟩, zero_notMem_fieldBytes req.fields⟩, hcrlf⟩
  rw [HttpRequest.bytes, List.append_assoc, cstr_append hhead, cstr_append_zero]
  simp only [List.append_assoc]

private theorem six_le_length (req : HttpRequest) : 6 ≤ req.bytes.length := by
  have hversion : (ascii "HTTP/1.").length = 7 := rfl
  simp only [HttpRequest.bytes, HttpRequest.requestLine, List.length_append, List.length_cons, hversion]
  omega

/-- The search of a request in a NUL-terminated buffer finds the first field with the name `Host`, or nothing where
there is none, exactly when `Host:` does not occur in what stands before. -/
theorem findHostHeader_request_iff (req : HttpRequest) (tail : List UInt8) :
    Obeys InRange (findHostHeader (req.bytes ++ 0 :: tail) req.bytes.length) (· = req.hostOffset) ↔
      ∀ t ∈ req.beforeHost, findCi hostHeader t = none := by
  have h6 : ¬ req.bytes.length < 6 := by
    have := six_le_length req
    omega
  have hz : (0 : UInt8) ∈ req.bytes ++ 0 :: tail := by simp
  have hlt := (take_cstr_length_succ hz).2
  rw [← findCi_request_iff, ← cstr_request req tail, findHostHeader, if_neg h6,
    obeys_stristr (watches_inRange _) (by decide) (by decide)]
  cases hfind : findCi hostHeader (cstr (req.bytes ++ 0 :: tail)) with
  | none => exact and_iff_right hz
  | some j =>
    have hlen := firstOcc_length hfind
    have h5 : (hostHeader.map toLower).length = hostHeader.length := List.length_map toLower
    rw [h5, List.length_map] at hlen
    exact and_iff_right (by omega)

/-- A request with a field before `Host` whose name ends with it. -/
def forwardedRequest : HttpRequest where
  method := ascii "GET"
  target := ascii "/"
  minor := 49
  fields :=
    [⟨ascii "X-Forwarded-Host", ascii " a.b", by decide +kernel, by decide +kernel, by decide +kernel⟩,
      ⟨ascii "Host", ascii " c.d", by decide +kernel, by decide +kernel, by decide +kernel⟩]
  body := []
  method_inLine := by decide +kernel
  target_inLine := by decide +kernel
  minor_digit := by decide +kernel

/-- The text is found inside `X-Forwarded-Host`. -/
theorem findHostHeader_forwardedRequest :
    (findHostHeader (forwardedRequest.bytes ++ [0]) forwardedRequest.bytes.length).val = some (some 28) ∧
      forwardedRequest.hostOffset = some 39 := by
  decide +kernel

end GoodbyeDpi
