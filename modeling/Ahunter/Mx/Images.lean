import Ahunter.Mx.Listener

/-!
# Images

A download is accepted for the type its bytes show, which has to be the type
the server names, and kept under the hash of its bytes. The file comes before
the record of it: a download that was accepted waits until the listener takes
it down, and a crash forgets the wait and keeps the file.
-/

namespace Ahunter.Mx

open Ahunter.Lib

/-! ## Types -/

/-- `LIMIT` -/
def imageLimit : ℕ := 10 * 1024 * 1024

def ImageType.code : ImageType → String
  | .jpeg => "image/jpeg"
  | .png => "image/png"
  | .webp => "image/webp"
  | .gif => "image/gif"
  | .avif => "image/avif"

def ImageType.extension : ImageType → String
  | .jpeg => "jpg"
  | .png => "png"
  | .webp => "webp"
  | .gif => "gif"
  | .avif => "avif"

abbrev Bytes := List UInt8

instance bytesLawful : LawfulBEq Bytes := inferInstance

def ascii (text : String) : Bytes := text.toList.map fun c => c.val.toUInt8

/-- `bytes.subarray(from, to)` -/
def slice (bytes : Bytes) (start stop : ℕ) : Bytes := (bytes.take stop).drop start

/-- `toString("ascii")`, which drops the high bit of each byte. -/
def asciiBytes (bytes : Bytes) : Bytes := bytes.map fun b => b &&& 0x7f

/-- `readUInt32BE(0)` -/
def boxSize (bytes : Bytes) : ℕ :=
  (bytes.take 4).foldl (fun size b => size * 256 + b.toNat) 0

def avifBrands : List Bytes := [ascii "avif", ascii "avis"]

def compatibleBrand (bytes : Bytes) (boxEnd : ℕ) : ℕ → ℕ → Bool
  | 0, _ => false
  | fuel + 1, offset =>
      if offset + 4 ≤ boxEnd then
        asciiBytes (slice bytes offset (offset + 4)) ∈ avifBrands ||
          compatibleBrand bytes boxEnd fuel (offset + 4)
      else false

/-- The part of `detectedImageType` that reads an `ftyp` box. -/
def detectedBox (bytes : Bytes) : Option ImageType :=
  if 16 ≤ bytes.length ∧ slice bytes 4 8 = ascii "ftyp" then
    if boxSize bytes < 16 then none
    else if asciiBytes (slice bytes 8 12) ∈ avifBrands ||
        compatibleBrand bytes (min (boxSize bytes) bytes.length) bytes.length 16 then
      some .avif
    else none
  else none

/-- `detectedImageType(bytes)` -/
def detectedImageType (bytes : Bytes) : Option ImageType :=
  if 3 ≤ bytes.length ∧ bytes.take 3 = [0xff, 0xd8, 0xff] then some .jpeg
  else if 8 ≤ bytes.length ∧
      bytes.take 8 = [0x89, 0x50, 0x4e, 0x47, 0x0d, 0x0a, 0x1a, 0x0a] then some .png
  else if 6 ≤ bytes.length ∧
      (bytes.take 6 = ascii "GIF87a" ∨ bytes.take 6 = ascii "GIF89a") then some .gif
  else if 12 ≤ bytes.length ∧ bytes.take 4 = ascii "RIFF" ∧
      slice bytes 8 12 = ascii "WEBP" then some .webp
  else detectedBox bytes

/-! ## Downloads -/

structure Response where
  href : String
  contentType : Option String
  declared : ℕ
  bytes : Bytes

/-- `headers.get("content-type")?.split(";")[0].trim().toLowerCase()` -/
def declaredType (header : Option String) : Option String :=
  header.map fun text => (jsTrim (String.ofList (text.toList.takeWhile (· ≠ ';')))).toLower

/-- `EXTENSIONS.has(contentType)` -/
def supportedType (type : Option String) : Option ImageType :=
  type.bind fun code => [ImageType.jpeg, .png, .webp, .gif, .avif].find? fun t => t.code = code

/-- `path.join(mediaRoot, eventDate, …)` under the default media root, as the
list of its parts. -/
def imagePath (eventDate contentHash : String) (type : ImageType) : List String :=
  ["data", "media", eventDate, contentHash ++ "." ++ type.extension]

/-- `downloadImage({…})` from the response on. -/
def downloadImage (rt : Runtime) (eventReceivedAt : ℕ) (response : Response) :
    Except String Media := do
  let contentType ← need (supportedType (declaredType response.contentType)) "Error"
  refuse (imageLimit < response.declared) "Error"
  refuse (imageLimit < response.bytes.length) "Error"
  let detectedType ← need (detectedImageType response.bytes) "Error"
  refuse (detectedType ≠ contentType) "Error"
  let contentHash := rt.sha256Bytes response.bytes
  pure {
    sourceUrl := response.href
    urlHash := rt.sha256 response.href
    contentHash := contentHash
    contentType := detectedType
    localPath := imagePath (rt.eventDate eventReceivedAt) contentHash detectedType }

/-! ## The collector -/

/-- The listener with the files below the media root and the downloads that it
has still to record. -/
structure Collector where
  listener : Listener
  files : List String → Option Bytes
  fetched : List Media

def Collector.start (runId : String) : Collector := ⟨.start runId, fun _ => none, []⟩

/-- `link(temporary, localPath)`: a file that is there stays. -/
def linkFile (files : List String → Option Bytes) (path : List String) (bytes : Bytes) :
    List String → Option Bytes :=
  fun name => if name = path then (files name).orElse fun _ => some bytes else files name

/-- What can happen to the collector. -/
inductive Deed
  | act (action : Action)
  | fetch (eventReceivedAt : ℕ) (response : Response)

def Collector.step (rt : Runtime) (affinity : String → Cell) (c : Collector) :
    Deed → Option Collector
  | .act (.turn (.downloaded eventId rid downloadedAt media)) =>
      if media ∈ c.fetched then do
        let listener ← c.listener.step rt affinity
          (.turn (.downloaded eventId rid downloadedAt media))
        some { c with listener := listener }
      else none
  | .act (.crash runId) => do
      let listener ← c.listener.step rt affinity (.crash runId)
      some { c with
        listener := listener
        fetched := [] }
  | .act action => do
      let listener ← c.listener.step rt affinity action
      some { c with listener := listener }
  | .fetch eventReceivedAt response =>
      match downloadImage rt eventReceivedAt response with
      | .ok media => some { c with
          files := linkFile c.files media.localPath response.bytes
          fetched := media :: c.fetched }
      | .error _ => some c

def Collector.run (rt : Runtime) (affinity : String → Cell) (c : Collector) :
    List Deed → Option Collector
  | [] => some c
  | deed :: deeds => do
      let c ← c.step rt affinity deed
      c.run rt affinity deeds

end Ahunter.Mx
