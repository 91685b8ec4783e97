import CircuitHarness.Text.Utf8
import CircuitHarness.Yaml.Token

/-! The text of a stream. It is read in portions, each only when it is needed, so what is wrong with a later one does not
matter if something else is found wrong before. -/
namespace CircuitHarness.Yaml

/-- The text in front of the first portion that cannot be read, and why that one cannot. -/
structure Source where
  text : List Char
  fault : Option Fault

namespace Source

def block : Nat := 8192

def portion : Nat := 4096

/-- Where the portion begins that a place lies in; the first two are read as one. -/
def portionStart (n : Nat) : Nat := if n < 2*portion then 0 else n/portion*portion

def isAllowed (c : Char) : Bool :=
  let n := c.toNat
  n = 9 || n = 10 || n = 13 || (0x20 ≤ n && n ≤ 0x7e) || n = 0x85 || (0xa0 ≤ n && n ≤ 0xd7ff) ||
    (0xe000 ≤ n && n ≤ 0xfffd) || 0x10000 ≤ n

def sift (s : Source) : Source :=
  match s.text.findIdx? fun c => !isAllowed c with
  | some n => ⟨s.text.take (portionStart n), some (.malformed "special characters are not allowed")⟩
  | none => s

def unifyLines : List Char → List Char
  | '\r' :: '\n' :: r => '\n' :: unifyLines r
  | c :: r => (if c = '\r' then '\n' else c) :: unifyLines r
  | [] => []

/-- How many characters are known once the first `n` bytes are decoded. A carriage return at their end waits for what
comes behind it. -/
def known (bs : List UInt8) (n : Nat) : Nat :=
  let cs := (Utf8.decode 0 none (bs.take n)).1
  (unifyLines (if cs.getLast? = some '\r' then cs.dropLast else cs)).length

/-- How many bytes the next block has if the last one gave `chars` for `bytes`: as many as the rest of the portion should
take. -/
def nextBlock (bytes chars rest : Nat) : Nat := max block (if chars < bytes then bytes*rest/chars else rest)

/-- How many characters are known when the block begins that the byte `n` lies in. The first argument bounds the number of
blocks, and so many characters are known at `start`, where the last block ends. -/
def knownBefore (bs : List UInt8) (n : Nat) : Nat → Nat → Nat → Nat → Nat → Nat
  | 0, _, total, _, _ => total
  | k+1, start, total, bytes, chars =>
    let size := nextBlock bytes chars (portion-total%portion)
    if n < start+size then total
    else
      let next := known bs (start+size)
      knownBefore bs n k (start+size) next size (next-total)

/-- A block that cannot be decoded spoils the first portion that is not full without it. Whether the last character is
complete is known only when no more bytes come. -/
def ofBytes (bs : List UInt8) : Source :=
  match Utf8.decode 0 none bs with
  | (cs, none) => sift ⟨unifyLines cs, none⟩
  | (cs, some n) =>
    let sound := if n < bs.length then knownBefore bs n bs.length 0 0 0 0 else known bs bs.length
    sift ⟨(unifyLines cs).take (portionStart sound), some .notUtf8⟩

end Source
end CircuitHarness.Yaml
