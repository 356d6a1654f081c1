import Relay.Common.Ids
import Relay.Lib.Js

/-!
# Link previews

The texts of a page that a preview shows are found in its HTML, where some characters are written as entities;
`decode` reads them. The requests and the search for the tags are left out.
-/

namespace Relay.Gateway.LinkPreview

open Relay.Lib

def decode (value : Text) : Text :=
  let amp := Js.replaceText "&amp;".toList ['&'] value
  let lt := Js.replaceText "&lt;".toList ['<'] amp
  let gt := Js.replaceText "&gt;".toList ['>'] lt
  let quot := Js.replaceText "&quot;".toList ['"'] gt
  let apos := Js.replaceText "&#39;".toList ['\x27'] quot
  Js.trim apos

end Relay.Gateway.LinkPreview
