import Gatekeeper.Http.Header
import Gatekeeper.Json.Decode
import Gatekeeper.Text.Quote

/-!
# JSON error responses

`errorResponse` serves an error as JSON: it sets the content type and
`nosniff`, writes the status, and for a non-empty message writes
`{"error": %q}`.  The `%q` verb quotes with Go's escapes, which JSON shares
only in part: `\a`, `\v`, `\xNN` and `\UNNNNNNNN` are not JSON escapes.

For a message that is valid UTF-8 the body is therefore JSON, and decodes to
the one member `error` holding the message, exactly when every rune of the
message is one whose Go escape JSON reads (`quotesAsJson`); otherwise the body
is no JSON text at all.
-/

namespace Gatekeeper
namespace Http

open Strconv Utf8

/-- Modelled from the spec: `jsonMime` is not under src/; the response is served as
`application/json`. -/
def jsonMime : List Char :=
  "application/json".toList

/-- Modelled from the spec: `headerXContentTypeOptions` is not under src/; it is the header
that carries `nosniff`. -/
def headerXContentTypeOptions : List Char :=
  "X-Content-Type-Options".toList

/-- `noSniff`. -/
def noSniff (h : Header) : Header :=
  h.set headerXContentTypeOptions "nosniff".toList

/-- What `errorResponse` leaves on the `ResponseWriter`: the header map after its `Set`s, the
status passed to `WriteHeader`, and the body. -/
structure Response where
  header : Header
  status : Int
  body : List Char

/-- `errorResponse`, for the header map the writer held before the call. -/
def errorResponse (printable : Nat → Bool) (header : Header) (msg : List Char) (code : Int) :
    Response :=
  let header := noSniff (header.set "Content-Type".toList jsonMime)
  { header := header, status := code,
    body := if msg.length > 0 then "\x7b\"error\": ".toList ++ quote printable msg ++ "\x7d".toList
      else [] }

theorem errorResponse_body (printable : Nat → Bool) (header : Header) {msg : List Char}
    (hmsg : msg ≠ []) (code : Int) :
    (errorResponse printable header msg code).body =
      "\x7b\"error\": \"".toList ++ quoteRunes printable msg ++ "\"\x7d".toList := by
  simp [errorResponse, List.length_pos.mpr hmsg, quote]

/-!
## The escapes JSON reads
-/

/-- The runes whose `%q` escape a JSON string reads back as the rune: all but the control
characters other than `\b \t \n \f \r`, DEL, and the runes above U+FFFF that `IsPrint`
rejects. -/
def quotesAsJson (printable : Nat → Bool) (r : Nat) : Bool :=
  (0x20 ≤ r || r == 8 || r == 9 || r == 10 || r == 12 || r == 13) && r != 0x7F &&
    (r < 0x10000 || isPrint printable r)

theorem quotesAsJson_iff {printable : Nat → Bool} {r : Nat} :
    quotesAsJson printable r ↔
      (0x20 ≤ r ∨ r = 8 ∨ r = 9 ∨ r = 10 ∨ r = 12 ∨ r = 13) ∧ r ≠ 0x7F ∧
        (r < 0x10000 ∨ isPrint printable r) := by
  simp only [quotesAsJson, Bool.or_eq_true, beq_iff_eq, Bool.and_eq_true, decide_eq_true_eq,
    bne_iff_ne, or_assoc, and_assoc]

theorem hexVal_lowerhex : ∀ d < 16, Json.hexVal (lowerhex d) = some d := by
  decide

/-- JSON reads Go's `\uNNNN` escape of a rune that is no surrogate as that rune. -/
theorem parseString_hexDigits {r : Nat} (hr : r < 0x10000) (hs : r < 0xD800 ∨ 0xE000 ≤ r)
    (rest : List Char) :
    Json.parseString (('\\' :: 'u' :: hexDigits r [12, 8, 4, 0]) ++ rest) =
      Json.prepend (appendRune r) (Json.parseString rest) := by
  have hx : Json.hex4 (lowerhex (r / 2 ^ 12 % 16)) (lowerhex (r / 2 ^ 8 % 16))
      (lowerhex (r / 2 ^ 4 % 16)) (lowerhex (r / 2 ^ 0 % 16)) = some r := by
    simp only [Json.hex4, hexVal_lowerhex _ (Nat.mod_lt _ (by decide))]
    simp only [Option.bind_eq_bind, Option.some_bind, Option.pure_def, Option.some.injEq]
    norm_num
    omega
  exact Json.parseString_unicode hx hs rest

/-- A printable rune other than the quote and the backslash is written as raw bytes. -/
theorem isRawByte_of_isPrint {printable : Nat → Bool} {r : Nat} (hq : ¬ (r = 34 ∨ r = 92))
    (hp : isPrint printable r) : ∀ c ∈ appendRune r, Json.isRawByte c := by
  intro c hc
  simp only [Json.isRawByte, Bool.and_eq_true, bne_iff_ne, ne_eq, decide_eq_true_eq]
  by_cases hr : r < 0x80
  · have hp' := (isPrint_iff_of_le (by omega)).mp hp
    rw [appendRune_of_lt hr, List.mem_singleton] at hc
    subst hc
    have e := toNat_ofNat_byte (show r < 256 by omega)
    refine ⟨⟨fun h => hq (.inl ?_), fun h => hq (.inr ?_)⟩, by omega⟩ <;> rw [← e, h] <;> rfl
  · have hb := appendRune_bytes (by omega) c hc
    refine ⟨⟨fun h => ?_, fun h => ?_⟩, by omega⟩ <;> (subst h; revert hb; decide)

theorem quotesAsJson_of_isPrint {printable : Nat → Bool} {r : Nat} (hp : isPrint printable r) :
    quotesAsJson printable r := by
  have h : 0x20 ≤ r ∧ r ≠ 0x7F := by
    by_cases hr : r ≤ 0xFF
    · have := (isPrint_iff_of_le hr).mp hp
      omega
    · omega
  exact quotesAsJson_iff.mpr ⟨.inl h.1, h.2, .inr hp⟩

/-- JSON reads a rune's `%q` escape back as the rune exactly when `quotesAsJson` holds of it,
and refuses the text at that escape otherwise. -/
theorem parseString_appendEscapedRune (printable : Nat → Bool) {r : Nat} (hv : validRune r)
    (rest : List Char) :
    Json.parseString (appendEscapedRune printable r ++ rest) =
      if quotesAsJson printable r then Json.prepend (appendRune r) (Json.parseString rest)
      else none := by
  unfold appendEscapedRune
  by_cases hq : r = '"'.toNat ∨ r = '\\'.toNat
  · rw [if_pos hq]
    rcases hq with rfl | rfl <;> rfl
  rw [if_neg hq]
  by_cases hp : isPrint printable r
  · rw [if_pos hp, if_pos (quotesAsJson_of_isPrint hp), Json.parseString_raw_append
      (isRawByte_of_isPrint (by simpa using hq) hp)]
  rw [if_neg hp]
  -- the seven one-letter escapes are read off directly; the rest are `\x`, `\u` and `\U`
  split <;> try rfl
  · rename_i h7 h8 h12 h10 h13 h9 h11
    simp only [imp_false] at h7 h8 h12 h10 h13 h9 h11
    by_cases hc : r < 0x20 ∨ r = 0x7F
    · have hj : ¬ quotesAsJson printable r := by
        rw [quotesAsJson_iff]
        rintro ⟨h, h127, -⟩
        omega
      rw [if_pos hc, if_neg hj]
      rfl
    simp only [if_neg hc, hv, if_true]
    have hs : r < 0xD800 ∨ 0xE000 ≤ r := by
      have := validRune_iff.mp hv
      omega
    by_cases hl : r < 0x10000
    · rw [if_pos hl, parseString_hexDigits hl hs,
        if_pos (quotesAsJson_iff.mpr ⟨by omega, by omega, .inl hl⟩)]
    · rw [if_neg hl, if_neg fun h => (quotesAsJson_iff.mp h).2.2.elim hl hp]
      rfl

/-- The quoted text of valid UTF-8, read as the contents of a JSON string. -/
theorem parseString_quoteRunes (printable : Nat → Bool) {rs : List Nat}
    (hv : ∀ r ∈ rs, validRune r) (rest : List Char) :
    Json.parseString (quoteRunes printable (encode rs) ++ rest) =
      if rs.all (quotesAsJson printable) then Json.prepend (encode rs) (Json.parseString rest)
      else none := by
  rw [quoteRunes_encode printable hv]
  induction rs with
  | nil => simp
  | cons r rs ih =>
      rw [List.flatMap_cons, List.append_assoc,
        parseString_appendEscapedRune printable (hv r (List.mem_cons_self _ _)),
        ih fun x hx => hv x (List.mem_cons_of_mem _ hx)]
      by_cases hq : quotesAsJson printable r
      · by_cases ha : rs.all (quotesAsJson printable) <;> simp [hq, ha, Json.prepend_prepend]
      · simp [hq]

/-!
## The body as JSON text
-/

theorem errorBody_eq (q : List Char) :
    "\x7b\"error\": \"".toList ++ q ++ "\"\x7d".toList =
      Char.ofNat 123 :: '"' :: 'e' :: 'r' :: 'r' :: 'o' :: 'r' :: '"' :: ':' :: ' ' :: '"' ::
        (q ++ ['"', Char.ofNat 125]) := rfl

/-- With enough fuel the body decodes to the member `error` holding what its string stands
for. -/
theorem decode_errorBody {q m : List Char}
    (h : Json.parseString (q ++ ['"', Char.ofNat 125]) = some (m, [Char.ofNat 125])) (n : Nat) :
    Json.decode (n + 3) ("\x7b\"error\": \"".toList ++ q ++ "\"\x7d".toList) =
      some (.object [("error".toList, .string m)]) := by
  rw [errorBody_eq]
  have hstr : Json.parseValue (n + 1) (' ' :: '"' :: (q ++ ['"', Char.ofNat 125])) =
      some (.string m, [Char.ofNat 125]) := by
    rw [Json.parseValue_string (s := ' ' :: '"' :: _) rfl, h]
    rfl
  exact Json.decode_of_parseValue
    ((Json.parseValue_object _ _).trans (Json.parseMembers_last rfl rfl hstr rfl)) rfl

/-- A body whose string JSON refuses decodes with no fuel. -/
theorem decode_errorBody_none {q : List Char}
    (h : Json.parseString (q ++ ['"', Char.ofNat 125]) = none) (fuel : Nat) :
    Json.decode fuel ("\x7b\"error\": \"".toList ++ q ++ "\"\x7d".toList) = none := by
  rw [errorBody_eq]
  refine Json.decode_of_parseValue_none ?_
  match fuel with
  | 0 => rfl
  | 1 => rfl
  | 2 => exact (Json.parseValue_object _ _).trans (Json.parseMembers_of_parseValue_none rfl rfl rfl)
  | n + 3 =>
    have hstr : Json.parseValue (n + 1) (' ' :: '"' :: (q ++ ['"', Char.ofNat 125])) = none := by
      rw [Json.parseValue_string (s := ' ' :: '"' :: _) rfl, h]
      rfl
    exact (Json.parseValue_object _ _).trans (Json.parseMembers_of_parseValue_none rfl rfl hstr)

theorem encode_ne_nil {rs : List Nat} (hne : rs ≠ []) : encode rs ≠ [] := by
  obtain ⟨r, rs, rfl⟩ := List.exists_cons_of_ne_nil hne
  rw [encode_cons]
  unfold appendRune threeBytes
  split_ifs <;> simp

/-!
## Error bodies of valid UTF-8 messages
-/

theorem errorResponse_body_json_iff (printable : Nat → Bool) (header : Header) (code : Int)
    {rs : List Nat} (hv : ∀ r ∈ rs, validRune r) (hne : rs ≠ []) :
    (Json.Decodes (errorResponse printable header (encode rs) code).body
        (.object [("error".toList, .string (encode rs))]) ↔
      ∀ r ∈ rs, quotesAsJson printable r) ∧
    ((∃ r ∈ rs, quotesAsJson printable r = false) →
      ∀ v, ¬ Json.Decodes (errorResponse printable header (encode rs) code).body v) := by
  have hq := parseString_quoteRunes printable hv ['"', Char.ofNat 125]
  rw [errorResponse_body printable header (encode_ne_nil hne) code]
  by_cases hall : rs.all (quotesAsJson printable)
  · rw [if_pos hall, Json.parseString_quote] at hq
    have hall' := List.all_eq_true.mp hall
    refine ⟨iff_of_true ⟨3, decode_errorBody (by simpa using hq) 0⟩ hall', ?_⟩
    rintro ⟨r, hr, hf⟩
    simp [hall' r hr] at hf
  · rw [if_neg hall] at hq
    have hnone : ∀ v, ¬ Json.Decodes
        ("\x7b\"error\": \"".toList ++ quoteRunes printable (encode rs) ++ "\"\x7d".toList) v := by
      rintro v ⟨fuel, hd⟩
      rw [decode_errorBody_none hq fuel] at hd
      cases hd
    exact ⟨iff_of_false (hnone _) fun h => hall (List.all_eq_true.mpr h), fun _ => hnone⟩

theorem errorResponse_body_json_iff_hi :
    (∀ r ∈ [0x68, 0x69], validRune r) ∧ [0x68, 0x69] ≠ [] ∧
      ((Json.Decodes (errorResponse (fun _ => true) Header.empty (encode [0x68, 0x69]) 500).body
          (.object [("error".toList, .string (encode [0x68, 0x69]))]) ↔
        ∀ r ∈ [0x68, 0x69], quotesAsJson (fun _ => true) r) ∧
      ((∃ r ∈ [0x68, 0x69], quotesAsJson (fun _ => true) r = false) →
        ∀ v, ¬ Json.Decodes (errorResponse (fun _ => true) Header.empty (encode [0x68, 0x69])
          500).body v)) :=
  ⟨by decide, by decide, errorResponse_body_json_iff _ _ _ (by decide) (by decide)⟩

/-- A message holding BEL, valid UTF-8, gets the body `{"error": "\a"}`, which is no JSON
text.  BEL lies below U+0100, so no table of `IsPrint` changes this. -/
theorem errorResponse_bell_not_json :
    Valid [Char.ofNat 7] ∧
      (errorResponse (fun _ => true) Header.empty [Char.ofNat 7] 500).body =
        "\x7b\"error\": \"\\a\"\x7d".toList ∧
      ∀ v, ¬ Json.Decodes
        (errorResponse (fun _ => true) Header.empty [Char.ofNat 7] 500).body v := by
  have hbell : quoteRunes (fun _ => true) [Char.ofNat 7] = ['\\', 'a'] :=
    quoteRunes_encode _ (by decide : ∀ r ∈ [7], validRune r)
  rw [errorResponse_body _ _ (List.cons_ne_nil _ _) _, hbell]
  refine ⟨⟨[7], by decide, rfl⟩, rfl, ?_⟩
  rintro v ⟨fuel, hd⟩
  rw [decode_errorBody_none (q := ['\\', 'a']) rfl fuel] at hd
  cases hd

/-!
## The other error responses

`methodNotAllowedHandler` and `methodNotFoundHandler` call `errorResponse` with no
message, so they send the JSON content type and no body.  `accessForbidden` sends the
forbidden page when one is configured, and otherwise the JSON error of at most the first
two messages; the others only reach the log.
-/

/-- `http.StatusForbidden`. -/
def statusForbidden : Int := 403

/-- `http.StatusNotFound`. -/
def statusNotFound : Int := 404

/-- `http.StatusMethodNotAllowed`. -/
def statusMethodNotAllowed : Int := 405

/-- `methodNotAllowedHandler`; the `Write(nil)` after `errorResponse` writes nothing. -/
def methodNotAllowedHandler (printable : Nat → Bool) (header : Header) : Response :=
  errorResponse printable header [] statusMethodNotAllowed

/-- `methodNotFoundHandler`. -/
def methodNotFoundHandler (printable : Nat → Bool) (header : Header) : Response :=
  errorResponse printable header [] statusNotFound

/-- The message `accessForbidden` returns to the client: none, the only one, or the first
two joined by a space, `strings.Join(msgs[:2], " ")`. -/
def forbiddenMessage : List (List Char) → List Char
  | [] => []
  | [m] => m
  | m₁ :: m₂ :: _ => m₁ ++ ' ' :: m₂

/-- `accessForbidden`, for the response it writes.  `hasCustomForbiddenPage` and `Render`
are not under src/: `page` is what the template writes when a forbidden page is configured,
and `none` when none is.  `oauthProxy.errorResponse` adds only logging and tracing to
`errorResponse`; the context `revokeProxy` returns is left out. -/
def accessForbidden (printable : Nat → Bool) (page : Option (List Char)) (header : Header)
    (msgs : List (List Char)) : Response :=
  match page with
  | some body =>
      { header := noSniff (header.set "Content-Type".toList "text/html; charset=utf-8".toList)
        status := statusForbidden
        body := body }
  | none => errorResponse printable header (forbiddenMessage msgs) statusForbidden

/-- A non-empty message of runes JSON reads back gives a body that decodes to it. -/
theorem decodes_errorResponse {printable : Nat → Bool} {header : Header} {code : Int}
    {rs : List Nat} (hv : ∀ r ∈ rs, validRune r) (hne : rs ≠ [])
    (hq : ∀ r ∈ rs, quotesAsJson printable r) :
    Json.Decodes (errorResponse printable header (encode rs) code).body
      (.object [("error".toList, .string (encode rs))]) := by
  have hs := parseString_quoteRunes printable hv ['"', Char.ofNat 125]
  rw [if_pos (List.all_eq_true.mpr hq), Json.parseString_quote] at hs
  rw [errorResponse_body printable header (encode_ne_nil hne) code]
  exact ⟨3, decode_errorBody (by simpa using hs) 0⟩

/-- Without a forbidden page, `accessForbidden` answers 403.  With no message, or one empty
message, the body is empty, which is no JSON text.  Otherwise the body decodes to the first
message, or to the first two joined by a space, whenever those are valid UTF-8 of runes JSON
reads back; the messages after them may be anything. -/
theorem accessForbidden_json (printable : Nat → Bool) (header : Header) (msgs : List (List Nat))
    (hv : ∀ m ∈ msgs.take 2, ∀ r ∈ m, validRune r)
    (hq : ∀ m ∈ msgs.take 2, ∀ r ∈ m, quotesAsJson printable r) :
    (accessForbidden printable none header (msgs.map encode)).status = statusForbidden ∧
      (msgs = [] ∨ msgs = [[]] →
        (accessForbidden printable none header (msgs.map encode)).body = [] ∧
          ∀ v, ¬ Json.Decodes (accessForbidden printable none header (msgs.map encode)).body v) ∧
      (msgs ≠ [] → msgs ≠ [[]] →
        Json.Decodes (accessForbidden printable none header (msgs.map encode)).body
          (.object [("error".toList, .string (forbiddenMessage (msgs.map encode)))])) := by
  have hbody : (accessForbidden printable none header (msgs.map encode)).body =
      (errorResponse printable header (forbiddenMessage (msgs.map encode)) statusForbidden).body :=
    rfl
  refine ⟨rfl, fun hempty => ?_, fun h₀ h₁ => ?_⟩
  · have hnil : (accessForbidden printable none header (msgs.map encode)).body = [] := by
      rcases hempty with rfl | rfl <;> rfl
    exact ⟨hnil, hnil ▸ Json.not_decodes_nil⟩
  rw [hbody]
  match msgs, hv, hq, h₀, h₁ with
  | [], _, _, h₀, _ => exact absurd rfl h₀
  | [m], hv, hq, _, h₁ =>
      have hm : m ≠ [] := fun h => h₁ (by rw [h])
      exact decodes_errorResponse (hv m (by simp)) hm (hq m (by simp))
  | m₁ :: m₂ :: rest, hv, hq, _, _ =>
      have hj : forbiddenMessage ((m₁ :: m₂ :: rest).map encode) = encode (m₁ ++ 0x20 :: m₂) := by
        simp [forbiddenMessage, appendRune_of_lt (show 0x20 < 0x80 by decide)]
      have hjoin : ∀ {P : Nat → Prop}, (∀ m ∈ (m₁ :: m₂ :: rest).take 2, ∀ r ∈ m, P r) →
          P 0x20 → ∀ r ∈ m₁ ++ 0x20 :: m₂, P r := fun h h20 r hr => by
        rcases List.mem_append.mp hr with hr | hr
        · exact h m₁ (by simp) r hr
        · rcases List.mem_cons.mp hr with rfl | hr
          exacts [h20, h m₂ (by simp) r hr]
      rw [hj]
      exact decodes_errorResponse (hjoin hv (by decide)) (by simp)
        (hjoin hq (quotesAsJson_iff.mpr ⟨.inl le_rfl, by decide, .inl (by decide)⟩))

theorem accessForbidden_json_denied :
    let msgs : List (List Nat) := [[0x6E, 0x6F], [0x61, 0x64, 0x6D, 0x69, 0x6E], [7]]
    (∀ m ∈ msgs.take 2, ∀ r ∈ m, validRune r) ∧
      (∀ m ∈ msgs.take 2, ∀ r ∈ m, quotesAsJson (fun _ => true) r) ∧
      (accessForbidden (fun _ => true) none Header.empty (msgs.map encode)).status =
        statusForbidden ∧
      Json.Decodes (accessForbidden (fun _ => true) none Header.empty (msgs.map encode)).body
        (.object [("error".toList, .string (forbiddenMessage (msgs.map encode)))]) := by
  intro msgs
  have hv : ∀ m ∈ msgs.take 2, ∀ r ∈ m, validRune r := by decide
  have hq : ∀ m ∈ msgs.take 2, ∀ r ∈ m, quotesAsJson (fun _ => true) r := by decide
  obtain ⟨hstatus, -, hjson⟩ := accessForbidden_json (fun _ => true) Header.empty msgs hv hq
  exact ⟨hv, hq, hstatus, hjson (by decide) (by decide)⟩

end Http
end Gatekeeper
