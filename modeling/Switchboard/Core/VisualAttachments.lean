import Mathlib
import Switchboard.Core.AnthropicContent

/-!
# Images of a request

The checks of an image before a request is sent. The image library and the splitting of
URLs are parameters: the checks below take any answer they may give.
-/

namespace Switchboard.Core.Anthropic

open Switchboard.Text

/-- What opening and verifying an image gives: its media type, an `OSError` or
`ValueError`, or another error. -/
inductive ImageFile where
  | opened (mimeType : Option String)
  | unreadable
  | failed

/-- The parts of `urlsplit` that are looked at. -/
structure SplitUrl where
  scheme : String
  netloc : String
  hostname : Option String
  username : Option String
  password : Option String

/-- `urlsplit` gives nothing where it, the host name or the port is a `ValueError`. -/
structure ImageLibrary where
  open? : List ℕ → ImageFile
  urlsplit : String → Option SplitUrl

/-! ## Base64 -/

/-- The value of a character of the base64 alphabet. -/
def sextet (c : Char) : Option ℕ :=
  let n := c.toNat
  if 65 ≤ n ∧ n ≤ 90 then some (n - 65)
  else if 97 ≤ n ∧ n ≤ 122 then some (n - 71)
  else if 48 ≤ n ∧ n ≤ 57 then some (n + 4)
  else if c = '+' then some 62
  else if c = '/' then some 63
  else none

/-- `base64.b64decode` with `validate=True`. -/
def b64decode : List Char → Option (List ℕ)
  | [] => some []
  | [a, b, '=', '='] => do
    let x := (← sextet a) * 64 + (← sextet b)
    return [x / 16]
  | [a, b, c, '='] => do
    let x := ((← sextet a) * 64 + (← sextet b)) * 64 + (← sextet c)
    return [x / 1024, x / 4 % 256]
  | a :: b :: c :: d :: rest => do
    let x := (((← sextet a) * 64 + (← sextet b)) * 64 + (← sextet c)) * 64 + (← sextet d)
    return x / 65536 :: x / 256 % 256 :: x % 256 :: (← b64decode rest)
  | _ => none

/-! ## Checks -/

def supportedImageTypes : List String := ["image/png", "image/jpeg", "image/webp"]

def maxImageBytes : ℕ := 20 * 1024 * 1024

variable (library : ImageLibrary)

/-- `validate_image_bytes`; its errors become the conversion's own where they are the
checks' own. -/
def validateImageBytes (data : List ℕ) (mediaType : String) : Except Raised Unit :=
  if mediaType ∉ supportedImageTypes then
    .error (.conversion s!"Unsupported image media type: {mediaType}")
  else if data = [] then .error (.conversion "Image data is empty")
  else if maxImageBytes < data.length then .error (.conversion "Image exceeds the 20 MiB limit")
  else
    match library.open? data with
    | .failed => .error .imageLibrary
    | .unreadable => .error (.conversion "Image bytes are corrupt or unreadable")
    | .opened mimeType =>
      if mimeType ≠ some mediaType then
        .error (.conversion "Image media type does not match its bytes")
      else .ok ()

def validateBase64Source (mediaType encoded : String) : Except Raised Unit :=
  if mediaType ∉ supportedImageTypes then
    .error (.conversion s!"Unsupported image media type: {mediaType}")
  else if 4 * ((maxImageBytes + 2) / 3) < encoded.length then
    .error (.conversion "Image exceeds the 20 MiB limit")
  else
    match b64decode encoded.toList with
    | none => .error (.conversion "Image base64 is invalid")
    | some data => validateImageBytes library data mediaType

def isControlOrSpace (c : Char) : Bool := isSpace c || c.toNat < 0x20 || c.toNat = 0x7f

def validateImageUrl (url : String) : Except Raised Unit :=
  if url = "" then .error (.conversion "Image URL source requires a non-empty URL")
  else if url.toList.any isControlOrSpace then
    .error (.conversion "Image URL source must not contain whitespace or control characters")
  else
    match library.urlsplit url with
    | none => .error (.conversion "Image URL source must be a valid absolute HTTP(S) URL")
    | some parsed =>
      if parsed.scheme.toLower ∉ ["http", "https"] then
        .error (.conversion "Image URL source must use the http or https scheme")
      else if parsed.netloc = "" ∨ parsed.hostname = none then
        .error (.conversion "Image URL source must be a valid absolute HTTP(S) URL")
      else if parsed.username ≠ none ∨ parsed.password ≠ none then
        .error (.conversion "Image URL source must not contain credentials")
      else .ok ()

/-! ## Sources -/

/-- A source with its media type under the name that Anthropic uses. -/
def withMediaType (source : List (String × Json)) : List (String × Json) :=
  if (source.lookup "media_type").isSome then source
  else
    match source.lookup "mimeType" with
    | some mediaType => source ++ [("media_type", mediaType)]
    | none =>
      match source.lookup "mime_type" with
      | some mediaType => source ++ [("media_type", mediaType)]
      | none => source

/-- `normalize_image_source` of a block that is a mapping. -/
def normalizeImageSource (block : Json) : Json :=
  match block.getD "source" with
  | .obj source => .obj (withMediaType source)
  | _ =>
    if isText "image" (block.getD "type") then
      let mediaType := block.getD "mimeType"
      .obj [("type", .str "base64"),
        ("media_type", if mediaType.isNull then block.getD "mime_type" else mediaType),
        ("data", block.getD "data")]
    else .obj []

/-- A text with a character that is no space. -/
def filledText? : Json → Option String
  | .str s => if strip isSpace s = "" then none else some s
  | _ => none

/-- `_openai_user_image_part`, up to the URL of the part. -/
def openaiUserImageUrl (block : Json) : Except Raised String :=
  let source := normalizeImageSource block
  let sourceType := source.getD "type"
  if isText "base64" sourceType then
    match filledText? (source.getD "media_type") with
    | none => .error (.conversion "Base64 image source requires a non-empty media_type.")
    | some mediaType =>
      match filledText? (source.getD "data") with
      | none => .error (.conversion "Base64 image source requires non-empty data.")
      | some data => do
        validateBase64Source library mediaType data
        return s!"data:{mediaType};base64,{data}"
  else if isText "url" sourceType then
    match filledText? (source.getD "url") with
    | none => .error (.conversion "URL image source requires a non-empty url.")
    | some url => do
      validateImageUrl library url
      return url
  else
    .error (.conversion
      s!"Unsupported image source type {sourceType.repr}; expected 'base64' or 'url'.")

end Switchboard.Core.Anthropic
