import Mathlib.Data.Int.Basic
import Mathlib.Data.List.Basic

/-! Dates of JavaScript in UTC, as far as they are whole seconds, and the texts that are made of
them. A date out of range has no time, and its parts are no numbers. -/

namespace Js

def decimal : Option ℤ → List Char
  | none => ['N', 'a', 'N']
  | some n => (if n < 0 then ['-'] else []) ++ Nat.toDigits 10 n.natAbs

def padStart (s : List Char) (length : ℕ) (c : Char) : List Char :=
  List.replicate (length - s.length) c ++ s

def entry (words : List String) (i : Option ℤ) : List Char :=
  match i.bind fun i => if 0 ≤ i then words[i.toNat]? else none with
  | some word => word.toList
  | none => "undefined".toList

abbrev Date := Option ℤ

namespace Date

def ofSeconds (sec : ℤ) : Date := if (sec * 1000).natAbs ≤ 8640000000000000 then some (sec * 1000)
    else none

/-- The year, the month from 0 and the day from 1 of a day counted from 1970. Years begin in March
here, so that the day that comes in leap years is the last one. -/
def civil (days : ℤ) : ℤ × ℤ × ℤ :=
  let z := days + 719468
  let era := z / 146097
  let doe := z % 146097
  let yoe := (doe - doe / 1460 + doe / 36524 - doe / 146096) / 365
  let doy := doe - (365 * yoe + yoe / 4 - yoe / 100)
  let month := (5 * doy + 2) / 153
  let day := doy - (153 * month + 2) / 5 + 1
  if month < 10 then (yoe + era * 400, month + 2, day) else (yoe + era * 400 + 1, month - 10, day)

def days (d : Date) : Option ℤ := d.map (· / 86400000)

def getUTCDay (d : Date) : Option ℤ := d.days.map fun n => (n + 4) % 7
def getUTCFullYear (d : Date) : Option ℤ := d.days.map fun n => (civil n).1
def getUTCMonth (d : Date) : Option ℤ := d.days.map fun n => (civil n).2.1
def getUTCDate (d : Date) : Option ℤ := d.days.map fun n => (civil n).2.2
def getUTCHours (d : Date) : Option ℤ := d.map fun t => t % 86400000 / 3600000
def getUTCMinutes (d : Date) : Option ℤ := d.map fun t => t % 3600000 / 60000
def getUTCSeconds (d : Date) : Option ℤ := d.map fun t => t % 60000 / 1000

end Date

theorem mem_decimal {n : Option ℤ} {c : Char} (h : c ∈ decimal n) : c.isDigit = true ∨
    c ∈ ['-', 'N', 'a'] := by
  cases n with
  | none =>
    simp only [decimal, List.mem_cons, List.not_mem_nil, or_false] at h
    rcases h with rfl | rfl | rfl
    · exact .inr (by decide)
    · exact .inr (by decide)
    · exact .inr (by decide)
  | some n =>
    rcases List.mem_append.mp h with h | h
    · split at h
      · rw [List.mem_singleton.mp h]
        exact .inr List.mem_cons_self
      · exact absurd h List.not_mem_nil
    · exact .inl (Nat.isDigit_of_mem_toDigits (by decide) (by decide) h)

theorem mem_padStart {s : List Char} {length : ℕ} {c d : Char} (h : d ∈ padStart s length c) :
    d = c ∨ d ∈ s :=
  (List.mem_append.mp h).imp_left List.eq_of_mem_replicate

theorem mem_entry {words : List String} {i : Option ℤ} {c : Char} (h : c ∈ entry words i) :
    (∃ word ∈ words, c ∈ word.toList) ∨ c ∈ "undefined".toList := by
  unfold entry at h
  split at h
  · next word hword =>
    obtain ⟨n, -, hn⟩ := Option.bind_eq_some_iff.mp hword
    split at hn
    · exact .inl ⟨word, List.mem_of_getElem? hn, h⟩
    · cases hn
  · exact .inr h

theorem newline_notMem_decimal (n : Option ℤ) : '\n' ∉ decimal n :=
  fun h => absurd (mem_decimal h) (by decide)

theorem newline_notMem_padStart {s : List Char} {length : ℕ} {c : Char} (hs : '\n' ∉ s)
    (hc : c ≠ '\n') :
    '\n' ∉ padStart s length c := fun h => (mem_padStart h).elim (fun heq => hc heq.symm) hs

theorem newline_notMem_entry {words : List String} (h : ∀ word ∈ words, '\n' ∉ word.toList)
    (i : Option ℤ) :
    '\n' ∉ entry words i := by
  intro hmem
  rcases mem_entry hmem with ⟨word, hword, hc⟩ | hc
  · exact h word hword hc
  · exact absurd hc (by decide)

end Js
