import OpenDmcn.Lib.Bytes
import OpenDmcn.Lib.Strings
import Mathlib.Data.List.DropRight
import Mathlib.Data.List.Infix

/-! Addresses in mail headers (`ParseAddress` and `ParseAddressList` of `net/mail`). The grammar for
one address is tried before the one for a list only by its caller: what holds one address is a list
of one, but not the other way round. -/

namespace Go.Mail

inductive Rune where
  | char (c : Char)
  | byte (b : UInt8)
  deriving DecidableEq

abbrev Text := List Rune

def Text.ofString (s : String) : Text := s.toList.map .char

structure Address where
  name : Text
  address : String
  deriving DecidableEq

/-- What `mime.WordDecoder` says of a word: it is encoded, it is in a character set that is not
known, or neither. -/
inductive Decoded where
  | word (t : Text)
  | unknownCharset
  | plain

structure AddrRuntime where
  /-- `net.ParseIP`. -/
  parseIP : String → Option Bytes
  decodeWord : Text → Decoded

section Characters

def isVchar (c : Char) : Bool := decide ('!' ≤ c ∧ c ≤ '~') || decide (128 ≤ c.toNat)

def isWSP (c : Char) : Bool := c == ' ' || c == '\t'

def isAtext (c : Char) (dot : Bool) : Bool :=
  if c = '.' then dot
  else if c ∈ ['(', ')', '<', '>', '[', ']', ':', ';', '@', '\\', ',', '"'] then false
  else isVchar c

def isQtext (c : Char) : Bool := if c = '\\' ∨ c = '"' then false else isVchar c

def isDtext (c : Char) : Bool := if c = '[' ∨ c = ']' ∨ c = '\\' then false else isVchar c

end Characters

def peeks (c : Char) (s : Text) : Bool := s.head? == some (.char c)

def consume (c : Char) (s : Text) : Option Text := if peeks c s then some s.tail else none

def skipSpace (s : Text) : Text := s.dropWhile fun r => r == .char ' ' || r == .char '\t'

def consumeComment : Text → ℕ → Option (Text × Text)
  | s, 0 => some ([], s)
  | [], _ + 1 => none
  | r :: s, depth + 1 =>
    if r = .char '\\' then
      match s with
      | [] => none
      | quoted :: s => (consumeComment s (depth + 1)).map fun (comment, rest) =>
        (quoted :: comment, rest)
    else if r = .char '(' then (consumeComment s (depth + 2)).map fun (comment, rest) =>
      (r :: comment, rest)
    else if r = .char ')' then
      (consumeComment s depth).map fun (comment, rest) =>
        (if depth = 0 then comment else r :: comment, rest)
    else (consumeComment s (depth + 1)).map fun (comment, rest) => (r :: comment, rest)

def skipComments : ℕ → Text → Option Text
  | 0, s => some s
  | turns + 1, s =>
    match consume '(' s with
    | none => some s
    | some s =>
      match consumeComment s 1 with
      | none => none
      | some (_, s) => skipComments turns (skipSpace s)

def skipCFWS (s : Text) : Option Text := skipComments (s.length + 1) (skipSpace s)

def spanAtom (dot : Bool) : Text → Option (List Char × Text)
  | [] => some ([], [])
  | .byte _ :: _ => none
  | .char c :: s =>
    if isAtext c dot then (spanAtom dot s).map fun (atom, rest) =>
      (c :: atom, rest) else some ([], .char c :: s)

def dotsInPlace (atom : List Char) : Bool :=
  atom.head? != some '.' && atom.getLast? != some '.' && !decide (['.', '.'] <:+: atom)

def consumeAtom (dot permissive : Bool) (s : Text) : Option (List Char × Text) := do
  let (atom, rest) ← spanAtom dot s
  guard (atom ≠ [] ∧ (permissive || dotsInPlace atom) = true)
  return (atom, rest)

def spanQuoted : Bool → Text → Option (List Char × Text)
  | _, [] => none
  | _, .byte _ :: _ => none
  | true, .char c :: s =>
    if isVchar c || isWSP c then (spanQuoted false s).map fun (quoted, rest) => (c :: quoted, rest)
      else none
  | false, .char c :: s =>
    if isQtext c || isWSP c then (spanQuoted false s).map fun (quoted, rest) => (c :: quoted, rest)
    else if c = '"' then some ([], s)
    else if c = '\\' then spanQuoted true s
    else none

def consumeQuotedString (s : Text) : Option (List Char × Text) := spanQuoted false s.tail

def spanDtext : Text → Option (List Char × Text)
  | [] => none
  | .byte _ :: _ => none
  | .char c :: s =>
    if c = ']' then some ([], s)
    else if isDtext c then (spanDtext s).map fun (dtext, rest) => (c :: dtext, rest)
    else none

section Parser

variable (rt : AddrRuntime)

def consumeDomainLiteral (s : Text) : Option (List Char × Text) := do
  let s ← consume '[' s
  let (dtext, s) ← spanDtext s
  guard ((rt.parseIP (String.ofList dtext)).isSome)
  return ('[' :: dtext ++ [']'], s)

def consumeAddrSpec (s : Text) : Option (String × Text) := do
  let s := skipSpace s
  let (localPart, s) ←
    if peeks '"' s then (consumeQuotedString s).filter fun quoted =>
      quoted.1 ≠ [] else consumeAtom true false s
  let s ← consume '@' s
  let s := skipSpace s
  let (domain, s) ← if peeks '[' s then consumeDomainLiteral rt s else consumeAtom true false s
  return (String.ofList (localPart ++ '@' :: domain), s)

def decodeRFC2047Word (word : Text) : Option (Text × Bool) :=
  match rt.decodeWord word with
  | .word t => some (t, true)
  | .unknownCharset => none
  | .plain => some (word, false)

def joinWords (words : List Text) : Text := [Rune.char ' '].intercalate words

def phraseFrom : ℕ → List Text → Bool → Text → Option (Text × Text)
  | 0, _, _, _ => none
  | turns + 1, words, isPrevEncoded, s =>
    match if words = [] then some s else skipCFWS s with
    | none => none
    | some s =>
      let s := skipSpace s
      let ended (s : Text) : Option (Text × Text) :=
        if words = [] then none else some (joinWords words, s)
      let next (word : Text) (isEncoded : Bool) (s : Text) : Option (Text × Text) :=
        let words := if isPrevEncoded && isEncoded then words.dropLast ++
          [words.getLastD [] ++ word] else words ++
            [word]
        phraseFrom turns words isEncoded s
      if s = [] then some (joinWords words, s)
      else if peeks '"' s then
        match consumeQuotedString s with
        | none => ended s
        | some (quoted, s) => next (quoted.map .char) false s
      else
        match consumeAtom true true s with
        | none => ended s
        | some (atom, s) =>
          match decodeRFC2047Word rt (atom.map .char) with
          | none => ended s
          | some (word, isEncoded) => next word isEncoded s

def consumePhrase (s : Text) : Option (Text × Text) := phraseFrom rt (s.length + 1) [] false s

def decodeWords : List Text → Option (List Text)
  | [] => some []
  | word :: words => do
    let (decoded, _) ← decodeRFC2047Word rt word
    return decoded :: (← decodeWords words)

def consumeDisplayNameComment (s : Text) : Option (Text × Text) := do
  let s ← consume '(' s
  let (comment, s) ← consumeComment s 1
  let words ← decodeWords rt
      ((comment.splitOnP fun r => r == .char ' ' || r == .char '\t').filter (· ≠ []))
  return (joinWords words, s)

def parseAddressWith (group : Option (Text → Option (List Address × Text))) (s : Text) :
    Option (List Address × Text) :=
  let s := skipSpace s
  if s = [] then none
  else
    match consumeAddrSpec rt s with
    | some (spec, s) =>
      let s := skipSpace s
      if peeks '(' s then
        (consumeDisplayNameComment rt s).map fun (displayName, s) => ([⟨displayName, spec⟩], s)
      else some ([⟨[], spec⟩], s)
    | none => do
      let (displayName, s) ← if peeks '<' s then some ([], s) else consumePhrase rt s
      let s := skipSpace s
      match group, consume ':' s with
      | some consumeGroupList, some s => consumeGroupList s
      | _, _ =>
        let s ← consume '<' s
        let (spec, s) ← consumeAddrSpec rt s
        let s ← consume '>' s
        return ([⟨displayName, spec⟩], s)

def groupFrom : ℕ → List Address → Text → Option (List Address × Text)
  | 0, _, _ => none
  | turns + 1, group, s => do
    let (addrs, s) ← parseAddressWith rt none (skipSpace s)
    let s ← skipCFWS s
    match consume ';' s with
    | some s => return (group ++ addrs, ← skipCFWS s)
    | none => groupFrom turns (group ++ addrs) (← consume ',' s)

def consumeGroupList (s : Text) : Option (List Address × Text) :=
  let s := skipSpace s
  match consume ';' s with
  | some s => (skipCFWS s).map fun s => ([], s)
  | none => groupFrom rt (s.length + 1) [] s

def parseAddress (s : Text) : Option (List Address × Text) :=
  parseAddressWith rt (some (consumeGroupList rt)) s

def parseSingleAddress (s : Text) : Option Address := do
  let (addrs, s) ← parseAddress rt s
  let s ← skipCFWS s
  guard (s = [])
  match addrs with
  | [a] => some a
  | _ => none

def skipEmptyEntries (s : Text) : Text :=
  s.dropWhile fun r => r == .char ',' || r == .char ' ' || r == .char '\t'

def addressesFrom : ℕ → List Address → Text → Option (List Address)
  | 0, _, _ => none
  | turns + 1, list, s =>
    let s := skipSpace s
    match consume ',' s with
    | some s => addressesFrom turns list s
    | none => do
      let (addrs, s) ← parseAddress rt s
      let s ← skipCFWS s
      if s = [] then return list ++ addrs
      let s := skipEmptyEntries (← consume ',' s)
      if s = [] then return list ++ addrs
      addressesFrom turns (list ++ addrs) s

def parseAddressList (s : Text) : Option (List Address) := addressesFrom rt (s.length + 1) [] s

end Parser

section SingleAddress

variable {rt : AddrRuntime} {s : Text} {a : Address}

@[simp] theorem skipSpace_skipSpace (s : Text) : skipSpace (skipSpace s) = skipSpace s := by
  unfold skipSpace
  exact List.dropWhile_idempotent _ _

theorem parseAddress_skipSpace (rt : AddrRuntime) (s : Text) : parseAddress rt
    (skipSpace s) = parseAddress rt s := by
  unfold parseAddress parseAddressWith
  rw [skipSpace_skipSpace]

theorem parseAddress_comma (rt : AddrRuntime) (s : Text) : parseAddress rt
    (.char ',' :: s) = none := by
  have hspace : skipSpace (.char ',' :: s) = .char ',' :: s := by simp [skipSpace]
  have hatom : ∀ permissive, consumeAtom true permissive (.char ',' :: s) = none := by
    intro permissive
    have hspan : spanAtom true (.char ',' :: s) = some ([], .char ',' :: s) := by
      rw [spanAtom, if_neg (by decide)]
    simp [consumeAtom, hspan]
  have hspec : consumeAddrSpec rt (.char ',' :: s) = none := by
    simp [consumeAddrSpec, hspace, hatom, peeks]
  have hphrase : consumePhrase rt (.char ',' :: s) = none := by
    simp [consumePhrase, phraseFrom, hspace, hatom, peeks]
  simp [parseAddress, parseAddressWith, hspace, hspec, hphrase, peeks]

theorem consume_comma_of_parseAddress {found : List Address × Text}
    (h : parseAddress rt s = some found) :
    consume ',' (skipSpace s) = none := by
  rw [← parseAddress_skipSpace] at h
  unfold consume
  split
  · next hpeek =>
    cases hs : skipSpace s with
    | nil => simp [hs, peeks] at hpeek
    | cons r rest =>
      obtain rfl : r = .char ',' := by simpa [hs, peeks] using hpeek
      rw [hs, parseAddress_comma] at h
      cases h
  · rfl

theorem parseAddressList_of_single (h : parseSingleAddress rt s = some a) :
    parseAddressList rt s = some [a] := by
  simp only [parseSingleAddress, Option.bind_eq_bind, Option.bind_eq_some_iff, Prod.exists] at h
  obtain ⟨addrs, rest, haddr, rest', hcfws, _, hend, hsingle⟩ := h
  obtain rfl : addrs = [a] := by
    split at hsingle
    · rw [Option.some.inj hsingle]
    · cases hsingle
  have hempty : rest' = [] := by
    by_contra hne
    simp [hne] at hend
  have hcomma := consume_comma_of_parseAddress haddr
  unfold parseAddressList addressesFrom
  simp [hcomma, parseAddress_skipSpace, haddr, hcfws, hempty]

end SingleAddress

end Go.Mail
