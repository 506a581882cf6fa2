import Omoikane.Http.Url

/-!
# Storage origins

The storage manager keeps what a page stores under the origin of the page.
-/

namespace Omoikane.Js

open Base Http

/-- The key under which an origin's storage is kept. -/
structure StorageOrigin where
  scheme : Text
  host : Text
  port : Nat
deriving DecidableEq, Repr

/-- `from_url`. -/
def StorageOrigin.fromUrl (crate : UrlCrate) (url : Text) : Option StorageOrigin :=
  match Url.fromStr crate url with
  | .error _ => none
  | .ok parsed =>
    some {
      scheme := Text.toAsciiLowercase parsed.scheme
      host := Text.toAsciiLowercase parsed.host
      port := parsed.port.toNat }

def StorageOrigin.serialize (origin : StorageOrigin) : Text :=
  origin.scheme ++ [':', '/', '/'] ++ origin.host ++ [':'] ++ Text.ofNat origin.port

end Omoikane.Js
