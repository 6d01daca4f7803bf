import Gatekeeper.Basic

/-!
# Request headers

`http.Header` maps a canonical header name to its values.  The proxy only uses
names that are already canonical (`Authorization`, `X-Forwarded-Agent`,
`Cookie`), so the map is indexed by the name as written.
-/

namespace Gatekeeper
namespace Http

/-- `http.Header`: the values stored under each canonical name. -/
abbrev Header := List Char → List (List Char)

namespace Header

/-- The header with no values. -/
def empty : Header := fun _ => []

/-- `Header.Get`: the first value, or the empty string. -/
def get (h : Header) (key : List Char) : List Char :=
  (h key).headD []

/-- `Header.Set`: the key's values replaced by one. -/
def set (h : Header) (key value : List Char) : Header :=
  Function.update h key [value]

@[simp] theorem set_self (h : Header) (key value : List Char) : h.set key value key = [value] :=
  Function.update_same _ _ _

@[simp] theorem set_of_ne (h : Header) {key key' : List Char} (value : List Char)
    (hk : key' ≠ key) : h.set key value key' = h key' :=
  Function.update_noteq hk _ _

@[simp] theorem get_set_self (h : Header) (key value : List Char) :
    (h.set key value).get key = value := by
  simp [get]

theorem get_set_of_ne (h : Header) {key key' : List Char} (value : List Char) (hk : key' ≠ key) :
    (h.set key value).get key' = h.get key' := by
  simp [get, hk]

end Header

end Http
end Gatekeeper
