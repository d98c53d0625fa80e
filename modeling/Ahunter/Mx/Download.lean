import Ahunter.Mx.Images
import Mathlib.Data.List.DropRight

/-!
# Downloading an image

An address is checked after `new URL` has read it and after the dots behind its
host are gone: what is fetched, recorded and hashed is the address as the URL
writes itself, not the text it was read from. A redirect is read against the
address before it and checked in the same way, and so is the address the
response names.

How Node reads an address is given with it, like the addresses it knows as of
version 4 and 6. The networks that are not global are the source's.
-/

namespace Ahunter.Mx

open Ahunter.Lib

/-! ## Addresses -/

/-- The parts of a `URL` that are looked at. -/
structure Url where
  protocol : String
  username : String
  password : String
  hostname : String
  href : String
deriving DecidableEq, Repr

/-- What Node makes of addresses. -/
structure Net where
  /-- `new URL(value)` -/
  parse : String → Option Url
  /-- `new URL(location, base)` -/
  resolve : String → Url → Option Url
  /-- `url.hostname = hostname` -/
  setHostname : Url → String → Url
  /-- `isIP(hostname)` -/
  isIP : String → ℕ

def joinParts (bits : ℕ) (parts : List ℕ) : ℕ :=
  parts.foldl (fun total part => total * 2 ^ bits + part) 0

def inCidr (width bits value base : ℕ) : Bool :=
  value / 2 ^ (width - bits) = base / 2 ^ (width - bits)

/-- The octets of an address, as its number. -/
def ipv4Value (hostname : String) : ℕ :=
  joinParts 8 ((hostname.splitOn ".").map fun octet => octet.toNat?.getD 0) % 2 ^ 32

def nonGlobalIpv4 : List (String × ℕ) := [
  ("0.0.0.0", 8), ("10.0.0.0", 8), ("100.64.0.0", 10), ("127.0.0.0", 8),
  ("169.254.0.0", 16), ("172.16.0.0", 12), ("192.0.0.0", 24),
  ("192.0.2.0", 24), ("192.88.99.0", 24), ("192.168.0.0", 16),
  ("198.18.0.0", 15), ("198.51.100.0", 24), ("203.0.113.0", 24),
  ("224.0.0.0", 4), ("240.0.0.0", 4)]

def isNonGlobalIpv4 (hostname : String) : Bool :=
  if hostname = "192.0.0.9" ∨ hostname = "192.0.0.10" then false
  else nonGlobalIpv4.any fun e => inCidr 32 e.2 (ipv4Value hostname) (ipv4Value e.1)

def hexDigit (c : Char) : Option ℕ :=
  if c.isDigit then some (c.toNat - '0'.toNat)
  else if 'a' ≤ c ∧ c ≤ 'f' then some (c.toNat - 'a'.toNat + 10)
  else if 'A' ≤ c ∧ c ≤ 'F' then some (c.toNat - 'A'.toNat + 10)
  else none

/-- `Number.parseInt(word, 16)`: the digits at the front. -/
def hexWord (word : String) : Option ℕ :=
  match word.toList.takeWhile fun c => (hexDigit c).isSome with
  | [] => none
  | digits => some (joinParts 4 (digits.map fun c => (hexDigit c).getD 0))

/-- `text ? text.split(":") : []` -/
def colonParts (text : String) : List String := if text = "" then [] else text.splitOn ":"

/-- `ipv6Words(hostname)`; a word that is no number is `none`. -/
def ipv6Words (hostname : String) : Option (List (Option ℕ)) :=
  let words (left right : List String) := (left ++
    List.replicate (8 - left.length - right.length) "0" ++ right).map hexWord
  match hostname.splitOn "::" with
  | [left] =>
      let left := colonParts left
      if left.length = 8 then some (words left []) else none
  | [left, right] =>
      let left := colonParts left
      let right := colonParts right
      if left.length + right.length ≤ 8 then some (words left right) else none
  | _ => none

/-- The number of an address whose words are all numbers. -/
def ipv6Value (hostname : String) : Option (List ℕ) :=
  (ipv6Words hostname).bind fun words => words.mapM id

def globalIpv6 : List (String × ℕ) := [
  ("2001:1::1", 128), ("2001:1::2", 128), ("2001:1::3", 128),
  ("2001:3::", 32), ("2001:4:112::", 48), ("2001:20::", 28),
  ("2001:30::", 28)]

def nonGlobalIpv6 : List (String × ℕ) := [
  ("::", 128), ("::1", 128), ("64:ff9b:1::", 48), ("100::", 64),
  ("100:0:0:1::", 64), ("2001::", 23), ("2001:db8::", 32),
  ("2002::", 16), ("3fff::", 20), ("5f00::", 16), ("fc00::", 7),
  ("fe80::", 10), ("ff00::", 8)]

def isNonGlobalIpv6 (hostname : String) : Bool :=
  match ipv6Value hostname with
  | none => true
  | some words =>
      let among (networks : List (String × ℕ)) := networks.any fun e =>
        inCidr 128 e.2 (joinParts 16 words) (joinParts 16 ((ipv6Value e.1).getD []))
      if words.take 6 = [0, 0, 0, 0, 0, 0xffff] then true
      else if among globalIpv6 then false
      else among nonGlobalIpv6

/-- `hostname.toLowerCase().replace(/^\[|\]$/g, "").replace(/\.+$/, "")` -/
def plainHostname (hostname : String) : String :=
  let lower := hostname.toLower.toList
  let opened := if lower.head? = some '[' then lower.tail else lower
  let closed := if opened.getLast? = some ']' then opened.dropLast else opened
  String.ofList (closed.rdropWhile (· = '.'))

/-- `validatedUrl(value, context)` -/
def validatedUrl (net : Net) (value context : String) : Except String Url := do
  let url ← need (net.parse value) (context ++ " is invalid")
  refuse (url.protocol ≠ "https:") (context ++ " must use HTTPS")
  refuse (url.username ≠ "" ∨ url.password ≠ "") (context ++ " credentials are not allowed")
  let hostname := plainHostname url.hostname
  let version := net.isIP hostname
  let url := if version ≠ 6 then net.setHostname url hostname else url
  let localName := hostname = "localhost" ∨ ".localhost".toList.isSuffixOf hostname.toList = true
  let localAddress := (version = 4 ∧ isNonGlobalIpv4 hostname = true) ∨
    (version = 6 ∧ isNonGlobalIpv6 hostname = true)
  refuse (localName ∨ localAddress) (context ++ " host is not allowed")
  pure url

/-! ## Requests -/

/-- An answer to one request; a body that could not be read is `none`. -/
structure Answer where
  status : ℕ
  location : Option String
  url : String
  contentType : Option String
  declared : ℕ
  body : Option Bytes
deriving DecidableEq

/-- `MAX_REDIRECTS` -/
def maxRedirects : ℕ := 5

/-- `fetchImage(source, …)` with so many redirects to follow. A request that is
not answered is `none`. -/
def fetchImage (net : Net) : ℕ → Url → List (Option Answer) → Except String (Answer × Url)
  | redirects, current, some answer :: answers =>
      if 300 ≤ answer.status ∧ answer.status < 400 then do
        let location ← need answer.location "Image redirect is missing a location"
        match redirects with
        | 0 => .error "Image has too many redirects"
        | redirects + 1 => do
            let next ← need (net.resolve location current) "TypeError"
            let next ← validatedUrl net next.href "Image redirect URL"
            fetchImage net redirects next answers
      else if answer.url = "" then pure (answer, current)
      else do
        let final ← validatedUrl net answer.url "Image redirect URL"
        pure (answer, final)
  | _, _, _ => .error "connect timeout"

/-- What a server and the disk do to one download. -/
structure Attempted where
  answers : List (Option Answer)
  written : Bool
deriving DecidableEq

/-- `downloadImage({url, …})` -/
def downloadUrl (rt : Runtime) (net : Net) (url : String) (eventReceivedAt : ℕ)
    (attempted : Attempted) : Except String Media := do
  let source ← validatedUrl net url "Image URL"
  let (answer, finalUrl) ← fetchImage net maxRedirects source attempted.answers
  refuse (¬ (200 ≤ answer.status ∧ answer.status < 300)) "Image request failed"
  let _ ← validatedUrl net finalUrl.href "Image redirect URL"
  let bytes ← need answer.body "Image response has no body"
  let media ← downloadImage rt eventReceivedAt
    ⟨source.href, answer.contentType, answer.declared, bytes⟩
  refuse (attempted.written = false) "Error"
  pure media

theorem downloadUrl_hash {rt : Runtime} {net : Net} {url : String} {eventReceivedAt : ℕ}
    {attempted : Attempted} {media : Media}
    (h : downloadUrl rt net url eventReceivedAt attempted = .ok media) :
    ∃ source, validatedUrl net url "Image URL" = .ok source ∧
      media.urlHash = rt.sha256 source.href := by
  simp only [downloadUrl, downloadImage, bind_ok, pure_ok] at h
  obtain ⟨source, hsource, _, -, _, -, _, -, _, -, _, ⟨_, -, _, -, _, -, _, -, _, -, rfl⟩, _, -,
    rfl⟩ := h
  exact ⟨source, hsource, rfl⟩

end Ahunter.Mx
