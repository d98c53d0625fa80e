import Ahunter.Lib.Attempt
import Mathlib.Data.Rat.Defs

/-!
# The content of a room message

A decoded room message is a JSON value of any shape. Its nested message is
cleaned of the platform's disclaimer and walked for texts and for image
addresses: those of picture nodes and those that stand in a text.

JavaScript tells an absent property from one that is null and throws when a
property of null is read or when an object that hides `toString` is made a
string. Both end the classification of the frame, so the walk is an
`Except` of the error's class name. An assignment to the property `__proto__`
of a fresh object sets its prototype: the cleaned object keeps such an entry
for the lookups that go through it and never lists it. Only properties are
inherited here, not the elements of an array set as a prototype.
-/

namespace Ahunter.Mx

open Ahunter.Lib

inductive Number
  | finite (value : ℚ)
  | infinite (negative : Bool)
deriving DecidableEq

inductive Json
  | null
  | bool (value : Bool)
  | number (value : Number)
  | string (value : String)
  | array (items : List Json)
  | object (entries : List (String × Json))

/-- What Node and SQLite compute and the listener only passes on. -/
structure Runtime where
  /-- `createHash("sha256").update(value).digest("hex")` -/
  sha256 : String → String
  /-- the same of bytes -/
  sha256Bytes : List UInt8 → String
  /-- `JSON.stringify(value)` of a value that is not undefined -/
  stringify : Json → String
  /-- `JSON.parse(text)` -/
  parse : String → Option Json
  /-- `String(number)` -/
  render : Number → String
  /-- `decodeRoomFrame(frame, localDateString(receivedAt))`, or the class of the
  error it throws -/
  decodeRoomFrame : String → ℕ → Except String Json
  /-- the date of an instant in Shanghai, as the path of a file has it -/
  eventDate : ℕ → String

/-! ## Properties and strings -/

def protoKey : String := "__proto__"

def firstEntry (entries : List (String × Json)) (key : String) : Option Json :=
  (entries.find? fun e => e.1 = key).map Prod.snd

/-- `value[key]` of a value that was parsed; reading null throws. -/
def Json.property (key : String) : Json → Except String (Option Json)
  | .null => .error "TypeError"
  | .object entries => .ok (firstEntry entries key)
  | _ => .ok none

abbrev Lookup := String → Json → Option Json

/-- A property of an object that was parsed. -/
def own : Lookup := fun key value =>
  match value with
  | .object entries => firstEntry entries key
  | _ => none

mutual

/-- A property of a cleaned object, its own or its prototype's. -/
def inherited (key : String) : Json → Option Json
  | .object entries =>
      (firstEntry (entries.filter fun e => e.1 ≠ protoKey) key).orElse fun _ =>
        prototyped key entries
  | _ => none

def prototyped (key : String) : List (String × Json) → Option Json
  | [] => none
  | (name, value) :: entries =>
      if name = protoKey then inherited key value else prototyped key entries

end

/-- A JavaScript value counts as true. -/
def truthy : Option Json → Bool
  | none | some .null | some (.bool false) => false
  | some (.number (.finite value)) => value ≠ 0
  | some (.string value) => value ≠ ""
  | _ => true

/-- `a || b` -/
def orElse (a b : Option Json) : Option Json := if truthy a then a else b

/-- `a ?? b` -/
def nullish (a b : Option Json) : Option Json :=
  match a with
  | none | some .null => b
  | some value => some value

mutual

/-- `String(value)`: an object that has a property `toString` from JSON cannot be
made a string, since what JSON puts there is no function. -/
def jsString (rt : Runtime) (get : Lookup) : Json → Except String String
  | .null => .ok "null"
  | .bool value => .ok (if value then "true" else "false")
  | .number value => .ok (rt.render value)
  | .string value => .ok value
  | .array items => do
      let texts ← jsStrings rt get items
      .ok (String.intercalate "," texts)
  | .object entries =>
      match get "toString" (.object entries) with
      | some _ => .error "TypeError"
      | none => .ok "[object Object]"

/-- The texts of an array's elements, null's being empty. -/
def jsStrings (rt : Runtime) (get : Lookup) : List Json → Except String (List String)
  | [] => .ok []
  | .null :: items => do
      let rest ← jsStrings rt get items
      .ok ("" :: rest)
  | item :: items => do
      let text ← jsString rt get item
      let rest ← jsStrings rt get items
      .ok (text :: rest)

end

def jsSpace (c : Char) : Bool :=
  c.val ∈ [0x9, 0xa, 0xb, 0xc, 0xd, 0x20, 0xa0, 0x1680, 0x2028, 0x2029, 0x202f, 0x205f,
    0x3000, 0xfeff] || (0x2000 ≤ c.val && c.val ≤ 0x200a)

/-- `value.trim()` -/
def jsTrim (value : String) : String :=
  String.ofList ((value.toList.dropWhile jsSpace).reverse.dropWhile jsSpace).reverse

/-- `String(value.type || "").toLowerCase()` -/
def typeName (rt : Runtime) (get : Lookup) (value : Json) : Except String String :=
  match orElse (get "type" value) (some (.string "")) with
  | some type => do
      let text ← jsString rt get type
      .ok text.toLower
  | none => .ok ""

/-! ## The disclaimer -/

def mxDisclaimer : String := "免责声明：信息来源于官方媒体/网络新闻等，仅信息分享，不作为投资建议！"

def isMxDisclaimer : Option Json → Bool
  | some (.string value) => jsTrim value = mxDisclaimer
  | _ => false

/-- Where a value stands in the message. -/
inductive Location
  | root
  | array
  | msg
  | property
deriving DecidableEq, Repr

mutual

/-- `clean(value, location)`; `none` where the source has `DROP`. -/
def clean (rt : Runtime) (location : Location) : Json → Except String (Option Json)
  | .string value =>
      if isMxDisclaimer (some (.string value)) ∧ location ≠ .property then .ok none
      else .ok (some (.string value))
  | .array items => do
      let cleaned ← cleanItems rt items
      .ok (some (.array cleaned))
  | .object entries => do
      let type ← typeName rt own (.object entries)
      if type = "text" ∧ (entries.all fun e => e.1 ∈ ["type", "msg"]) ∧
          isMxDisclaimer (firstEntry entries "msg") then .ok none
      else do
        let cleaned ← cleanEntries rt entries
        .ok (some (.object cleaned))
  | value => .ok (some value)

def cleanItems (rt : Runtime) : List Json → Except String (List Json)
  | [] => .ok []
  | item :: items => do
      let cleaned ← clean rt .array item
      let rest ← cleanItems rt items
      .ok (cleaned.toList ++ rest)

def cleanEntries (rt : Runtime) :
    List (String × Json) → Except String (List (String × Json))
  | [] => .ok []
  | (key, child) :: entries => do
      let cleaned ← clean rt (if key = "msg" then .msg else .property) child
      let rest ← cleanEntries rt entries
      let kept := match cleaned with
        | some (.object es) => [(key, .object es)]
        | some (.array is) => [(key, .array is)]
        | some value => if key = protoKey then [] else [(key, value)]
        | none => []
      .ok (kept ++ rest)

end

/-- `normalizeMxContent(value)` -/
def normalizeMxContent (rt : Runtime) (value : Json) : Except String Json := do
  let cleaned ← clean rt .root value
  .ok (cleaned.getD .null)

/-! ## Addresses in a text -/

/-- `[^\s"'<>]` -/
def linkChar (c : Char) : Bool :=
  !jsSpace c && c ∉ ['"', '\'', '<', '>']

def dropWord (word : List Char) (cs : List Char) : Option (List Char × List Char) :=
  if (cs.take word.length).map Char.toLower = word then
    some (cs.take word.length, cs.drop word.length)
  else none

def imageExtensions : List String := ["avif", "gif", "jpeg", "jpg", "png", "webp"]

/-- `\.(?:avif|gif|jpe?g|png|webp)` at the front. -/
def extension? : List Char → Option (List Char × List Char)
  | '.' :: cs =>
      (imageExtensions.findSome? fun word => dropWord word.toList cs).map fun e =>
        ('.' :: e.1, e.2)
  | _ => none

/-- `[^\s"'<>]+?` up to the first extension. -/
def linkBody : List Char → Option (List Char × List Char)
  | [] => none
  | c :: cs =>
      if linkChar c then
        match extension? cs with
        | some (ext, rest) => some (c :: ext, rest)
        | none => (linkBody cs).map fun e => (c :: e.1, e.2)
      else none

/-- `(?:\?[^\s"'<>]*)?` -/
def linkQuery : List Char → List Char × List Char
  | '?' :: cs => ('?' :: cs.takeWhile linkChar, cs.dropWhile linkChar)
  | cs => ([], cs)

/-- One match of the expression at the front. -/
def linkAt (cs : List Char) : Option (List Char × List Char) := do
  let (scheme, rest) ← (dropWord "https://".toList cs).orElse fun _ =>
    dropWord "http://".toList cs
  let (body, rest) ← linkBody rest
  let (query, rest) := linkQuery rest
  some (scheme ++ body ++ query, rest)

/-- `value.matchAll(…)`; each round of the scan reads a character at least. -/
def linksFrom : ℕ → List Char → List String
  | 0, _ => []
  | _, [] => []
  | fuel + 1, c :: cs =>
      match linkAt (c :: cs) with
      | some (link, rest) => String.ofList link :: linksFrom fuel rest
      | none => linksFrom fuel cs

def imageLinks (value : String) : List String := linksFrom value.length value.toList

/-! ## The walk -/

structure Found where
  texts : List String
  imageUrls : List String
deriving DecidableEq

def Found.empty : Found := ⟨[], []⟩

def Found.append (a b : Found) : Found := ⟨a.texts ++ b.texts, a.imageUrls ++ b.imageUrls⟩

/-- What a picture node and a text node give of themselves. -/
def ownContent (rt : Runtime) (value : Json) : Except String Found := do
  let type ← typeName rt inherited value
  let images := match orElse (inherited "url" value) (inherited "src" value) with
    | some (.string url) => if type ∈ ["pic", "image", "img"] then [url] else []
    | _ => []
  let texts := match inherited "msg" value with
    | some (.string msg) => if type = "text" then [msg] else []
    | _ => []
  .ok ⟨texts, images⟩

mutual

/-- `visit(value)` -/
def visit (rt : Runtime) : Json → Except String Found
  | .string value => .ok ⟨[value], imageLinks value⟩
  | .array items => visitItems rt items
  | .object entries => do
      let own ← ownContent rt (.object entries)
      let rest ← visitEntries rt entries
      .ok (own.append rest)
  | _ => .ok .empty

def visitItems (rt : Runtime) : List Json → Except String Found
  | [] => .ok .empty
  | item :: items => do
      let first ← visit rt item
      let rest ← visitItems rt items
      .ok (first.append rest)

def visitEntries (rt : Runtime) : List (String × Json) → Except String Found
  | [] => .ok .empty
  | (key, child) :: entries => do
      let first ← if key ∈ ["url", "src", "msg", "type", protoKey] then .ok .empty
        else visit rt child
      let rest ← visitEntries rt entries
      .ok (first.append rest)

end

/-- `parseNestedMessage(message)` -/
def parseNestedMessage (rt : Runtime) (message : Json) : Json :=
  match message with
  | .string text =>
      let trimmed := jsTrim text
      if "[".isPrefixOf trimmed || "\x7b".isPrefixOf trimmed then
        (rt.parse trimmed).getD message
      else message
  | _ => message

/-- What `extractContent` returns. -/
structure Content where
  parsed : Json
  texts : List String
  imageUrls : List String

/-- `extractContent(message)` -/
def extractContent (rt : Runtime) (message : Json) : Except String Content := do
  let parsed ← normalizeMxContent rt (parseNestedMessage rt message)
  let found ← visit rt parsed
  .ok ⟨parsed, found.texts.eraseDups, found.imageUrls.eraseDups⟩

end Ahunter.Mx
