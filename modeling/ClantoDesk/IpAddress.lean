import Mathlib.Algebra.Order.Ring.Int
import Mathlib.Data.List.Basic
import Mathlib.Tactic.Common

/-!
IP addresses and their text form, as the standard library of the modelled program reads it: four
decimal numbers without leading zeros, or eight hexadecimal groups of which one run of zeros may be
left out and the last two may be written as an IPv4 address. A parser takes a text and returns
a value with what is left of the text. Nothing in this module refers to a particular program.
-/
namespace ClantoDesk.IpAddress

inductive IpAddr where
  | v4 (bits : BitVec 32)
  | v6 (bits : BitVec 128)
  deriving DecidableEq

namespace IpAddr

def width : IpAddr → ℕ
  | v4 _ => 32
  | v6 _ => 128

def bit : IpAddr → ℕ → Bool
  | v4 bits, i => bits.getMsbD i
  | v6 bits, i => bits.getMsbD i

def isLoopback : IpAddr → Bool
  | v4 bits => bits.extractLsb' 24 8 == 127#8
  | v6 bits => bits == 1#128

/-- `127.0.0.1`. -/
def localhost4 : IpAddr := v4 0x7f000001#32

/-- `::1`. -/
def localhost6 : IpAddr := v6 1#128

end IpAddr

/-- The first `bits` bits of a word of `w` bits. -/
def netMask (w bits : ℕ) : BitVec w :=
  if bits = 0 then 0#w else BitVec.allOnes w <<< (w - bits)

/-- The address has the first `bits` bits of `net`; addresses of different kinds never agree. -/
def inNet (ip net : IpAddr) (bits : ℕ) : Bool :=
  match ip, net with
  | .v4 a, .v4 b => a &&& netMask 32 bits == b &&& netMask 32 bits
  | .v6 a, .v6 b => a &&& netMask 128 bits == b &&& netMask 128 bits
  | _, _ => false

theorem getMsbD_netMask (w bits i : ℕ) :
    (netMask w bits).getMsbD i = decide (i < bits ∧ i < w) := by
  unfold netMask
  split
  · rename_i hbits
    simp [hbits]
  · rw [BitVec.getMsbD_shiftLeft, BitVec.getMsbD_allOnes]
    simp only [decide_eq_decide]
    omega

theorem and_netMask_eq_iff (w bits : ℕ) (a b : BitVec w) :
    a &&& netMask w bits = b &&& netMask w bits ↔
      ∀ i, i < bits → a.getMsbD i = b.getMsbD i := by
  constructor
  · intro h i hi
    have hbit := congrArg (fun v => v.getMsbD i) h
    simp only [BitVec.getMsbD_and, getMsbD_netMask] at hbit
    by_cases hw : i < w
    · simpa [hi, hw] using hbit
    · rw [BitVec.getMsbD_of_ge _ _ (by omega), BitVec.getMsbD_of_ge _ _ (by omega)]
  · intro h
    apply BitVec.eq_of_getMsbD_eq
    intro i hi
    rw [BitVec.getMsbD_and, BitVec.getMsbD_and, getMsbD_netMask]
    by_cases hbits : i < bits
    · rw [h i hbits]
    · simp [hbits]

/-- The mask compares the first bits of two addresses of the same kind. -/
theorem inNet_iff (ip net : IpAddr) (bits : ℕ) :
    inNet ip net bits = true ↔ ip.width = net.width ∧ ∀ i, i < bits → ip.bit i = net.bit i := by
  cases ip with
  | v4 a =>
    cases net with
    | v4 b => simp [inNet, IpAddr.width, IpAddr.bit, and_netMask_eq_iff]
    | v6 b => simp [inNet, IpAddr.width]
  | v6 a =>
    cases net with
    | v4 b => simp [inNet, IpAddr.width]
    | v6 b => simp [inNet, IpAddr.width, IpAddr.bit, and_netMask_eq_iff]

/-! ### Reading -/

abbrev Input := List Char

def toDigit (radix : ℕ) (c : Char) : Option ℕ :=
  let value :=
    if '0' ≤ c ∧ c ≤ '9' then some (c.toNat - '0'.toNat)
    else if 'a' ≤ c ∧ c ≤ 'z' then some (c.toNat - 'a'.toNat + 10)
    else if 'A' ≤ c ∧ c ≤ 'Z' then some (c.toNat - 'A'.toNat + 10)
    else none
  value.filter fun d => decide (d < radix)

def readDigits (radix : ℕ) (result count : ℕ) : Input → ℕ × ℕ × Input
  | [] => (result, count, [])
  | c :: rest =>
    match toDigit radix c with
    | some d => readDigits radix (result * radix + d) (count + 1) rest
    | none => (result, count, c :: rest)

def readNumber (radix maxDigits limit : ℕ) (allowZeroPrefix : Bool) (input : Input) :
    Option (ℕ × Input) :=
  let (result, count, rest) := readDigits radix 0 0 input
  if count = 0 ∨ maxDigits < count then none
  else if !allowZeroPrefix && input.head? == some '0' && decide (1 < count) then none
  else if result < limit then some (result, rest)
  else none

def readGivenChar (c : Char) : Input → Option Input
  | d :: rest => if c = d then some rest else none
  | [] => none

/-- What `read` takes, after a separator unless it is the first in a row. -/
def readSeparator {α : Type} (sep : Char) (index : ℕ) (read : Input → Option (α × Input))
    (input : Input) : Option (α × Input) :=
  if index = 0 then read input else (readGivenChar sep input).bind read

def readIpv4 (input : Input) : Option (BitVec 32 × Input) := do
  let octet := readNumber 10 3 256 false
  let (a, input) ← readSeparator '.' 0 octet input
  let (b, input) ← readSeparator '.' 1 octet input
  let (c, input) ← readSeparator '.' 2 octet input
  let (d, input) ← readSeparator '.' 3 octet input
  some (BitVec.ofNat 32 (a * 2 ^ 24 + b * 2 ^ 16 + c * 2 ^ 8 + d), input)

/-- Groups from the `index`th on, at most `left` of them; also whether the last two were an IPv4
address. -/
def readGroups (index : ℕ) (groups : List ℕ) : ℕ → Input → List ℕ × Bool × Input
  | 0, input => (groups, false, input)
  | left + 1, input =>
    match if 0 < left then readSeparator ':' index readIpv4 input else none with
    | some (v4, input) => (groups ++ [v4.toNat / 2 ^ 16, v4.toNat % 2 ^ 16], true, input)
    | none =>
      match readSeparator ':' index (readNumber 16 4 (2 ^ 16) true) input with
      | some (group, input) => readGroups (index + 1) (groups ++ [group]) left input
      | none => (groups, false, input)

def ofGroups (groups : List ℕ) : BitVec 128 :=
  BitVec.ofNat 128 (groups.foldl (fun n group => n * 2 ^ 16 + group) 0)

def readIpv6 (input : Input) : Option (BitVec 128 × Input) :=
  let (head, headIpv4, rest) := readGroups 0 [] 8 input
  if head.length = 8 then some (ofGroups head, rest)
  else if headIpv4 then none
  else do
    let rest ← readGivenChar ':' rest
    let rest ← readGivenChar ':' rest
    let (tail, _, rest) := readGroups 0 [] (8 - (head.length + 1)) rest
    some (ofGroups (head ++ List.replicate (8 - head.length - tail.length) 0 ++ tail), rest)

def parseIp (s : Input) : Option IpAddr :=
  match readIpv4 s with
  | some (bits, []) => some (.v4 bits)
  | some _ => none
  | none =>
    match readIpv6 s with
    | some (bits, []) => some (.v6 bits)
    | _ => none

example : parseIp "127.0.0.1".toList = some IpAddr.localhost4 := by decide
example : parseIp "1::1.2.3.4".toList = some (.v6 0x00010000000000000000000001020304#128) := by
  decide

end ClantoDesk.IpAddress
