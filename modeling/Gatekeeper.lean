import Gatekeeper.Basic
import Gatekeeper.Cookie.Policy
import Gatekeeper.Cookie.Chunks
import Gatekeeper.Cookie.Render
import Gatekeeper.Cookie.Jar
import Gatekeeper.Cookie.Session
import Gatekeeper.Cookie.Shared
import Gatekeeper.Http.Header
import Gatekeeper.Cookie.Filter
import Gatekeeper.Cookie.Wire
import Gatekeeper.Cookie.Browser
import Gatekeeper.Cookie.StateParameter
import Gatekeeper.Forwarding.Renewal
import Gatekeeper.Forwarding.Signer
import Gatekeeper.Text.Utf8
import Gatekeeper.Text.Quote
import Gatekeeper.Json.Decode
import Gatekeeper.Http.ErrorResponse
import Gatekeeper.Token.Identity
