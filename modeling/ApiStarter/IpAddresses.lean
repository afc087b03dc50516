import Mathlib.Data.List.TakeWhile

/-!
# The text of an IP address

What `str::parse::<IpAddr>` of the Rust standard library accepts.  A reader takes
what it understands from the front of the text and leaves the rest; all that any
reader here takes is digits, points and colons.
-/

namespace ApiStarter

inductive IpAddr
  | v4 (octets : Vector UInt8 4)
  | v6 (segments : Vector UInt16 8)
  deriving DecidableEq

namespace IpAddr

abbrev Reader (α : Type) := List Char → Option (α × List Char)

/-- `char::to_digit` -/
def toDigit (radix : ℕ) (c : Char) : Option ℕ :=
  let digit := if c.isDigit then some (c.toNat - '0'.toNat)
    else if 'a' ≤ c ∧ c ≤ 'f' then some (c.toNat - 'a'.toNat + 10)
    else if 'A' ≤ c ∧ c ≤ 'F' then some (c.toNat - 'A'.toNat + 10)
    else none
  digit.filter fun n ↦ decide (n < radix)

/-- All digits at the front, if they are a number up to `bound` with at most `maxDigits` digits. -/
def readNumber (radix bound maxDigits : ℕ) (allowZeroPrefix : Bool) : Reader ℕ := fun cs ↦
  let digits := cs.takeWhile fun c ↦ (toDigit radix c).isSome
  let result := digits.foldl (fun n c ↦ n * radix + (toDigit radix c).getD 0) 0
  if 0 < digits.length ∧ digits.length ≤ maxDigits ∧ result ≤ bound ∧
      (allowZeroPrefix = true ∨ digits.head? ≠ some '0' ∨ digits.length = 1) then
    some (result, cs.dropWhile fun c ↦ (toDigit radix c).isSome)
  else none

/-- The separator stands before all but the first item. -/
def readSeparator {α : Type} (sep : Char) (index : ℕ) (inner : Reader α) : Reader α := fun cs ↦
  if index = 0 then inner cs
  else match cs with
    | c :: cs => if c = sep then inner cs else none
    | [] => none

def readIpv4Addr : Reader (Vector UInt8 4) := fun cs ↦ do
  let (a, cs) ← readSeparator '.' 0 (readNumber 10 255 3 false) cs
  let (b, cs) ← readSeparator '.' 1 (readNumber 10 255 3 false) cs
  let (c, cs) ← readSeparator '.' 2 (readNumber 10 255 3 false) cs
  let (d, cs) ← readSeparator '.' 3 (readNumber 10 255 3 false) cs
  pure (#v[UInt8.ofNat a, UInt8.ofNat b, UInt8.ofNat c, UInt8.ofNat d], cs)

/-- `u16::from_be_bytes` -/
def fromBeBytes (high low : UInt8) : UInt16 := UInt16.ofNat (high.toNat * 256 + low.toNat)

/-- At most `remaining` groups from the one with number `i` on, and whether they end in an IPv4
address. -/
def readGroups : (remaining i : ℕ) → List Char → (List UInt16 × Bool) × List Char
  | 0, _, cs => (([], false), cs)
  | remaining + 1, i, cs =>
      -- an embedded IPv4 address takes the place of two groups
      match if 0 < remaining then readSeparator ':' i readIpv4Addr cs else none with
      | some (octets, rest) =>
          (([fromBeBytes octets[0] octets[1], fromBeBytes octets[2] octets[3]], true), rest)
      | none =>
          match readSeparator ':' i (readNumber 16 65535 4 true) cs with
          | some (group, rest) =>
              let more := readGroups remaining (i + 1) rest
              ((UInt16.ofNat group :: more.1.1, more.1.2), more.2)
          | none => (([], false), cs)

/-- The groups before and after `::`, with zeros in between. -/
def segments (head tail : List UInt16) : Vector UInt16 8 := Vector.ofFn fun i ↦
  if i < head.length then head.getD i 0
  else if 8 - tail.length ≤ i then tail.getD (i - (8 - tail.length)) 0
  else 0

def readIpv6Addr : Reader (Vector UInt16 8) := fun cs ↦
  let ((head, headIpv4), cs) := readGroups 8 0 cs
  if head.length = 8 then some (segments head [], cs)
  else if headIpv4 then none
  else match cs with
    | ':' :: ':' :: cs =>
        let ((tail, _), cs) := readGroups (8 - (head.length + 1)) 0 cs
        some (segments head tail, cs)
    | _ => none

def readIpAddr : Reader IpAddr := fun cs ↦
  match readIpv4Addr cs with
  | some (octets, rest) => some (.v4 octets, rest)
  | none => (readIpv6Addr cs).map fun r ↦ (.v6 r.1, r.2)

/-- `str::parse::<IpAddr>` -/
def parse (text : String) : Option IpAddr :=
  match readIpAddr text.toList with
  | some (ip, []) => some ip
  | _ => none

/-! ## What the readers take -/

def isAddressChar (c : Char) : Bool := (toDigit 16 c).isSome || decide (c = ':') || decide (c = '.')

/-- The rest that is left is what remains after some characters of an address. -/
def Leaves (cs rest : List Char) : Prop := ∃ used, cs = used ++ rest ∧ used.all isAddressChar = true

theorem Leaves.refl (cs : List Char) : Leaves cs cs := ⟨[], rfl, rfl⟩

theorem Leaves.cons {c : Char} {cs rest : List Char} (hc : isAddressChar c = true)
    (h : Leaves cs rest) : Leaves (c :: cs) rest := by
  obtain ⟨used, rfl, hused⟩ := h
  exact ⟨c :: used, rfl, by simp [hc, hused]⟩

theorem Leaves.trans {cs₁ cs₂ cs₃ : List Char} (h₁ : Leaves cs₁ cs₂) (h₂ : Leaves cs₂ cs₃) :
    Leaves cs₁ cs₃ := by
  obtain ⟨used₁, rfl, hused₁⟩ := h₁
  obtain ⟨used₂, rfl, hused₂⟩ := h₂
  exact ⟨used₁ ++ used₂, by rw [List.append_assoc], by rw [List.all_append, hused₁, hused₂]; rfl⟩

instance : Trans Leaves Leaves Leaves := ⟨Leaves.trans⟩

/-- A reader that takes characters of an address only. -/
def Takes {α : Type} (read : Reader α) : Prop := ∀ cs a rest,
    read cs = some (a, rest) → Leaves cs rest

theorem isAddressChar_of_digit {radix : ℕ} (hradix : radix ≤ 16) {c : Char}
    (hc : (toDigit radix c).isSome = true) : isAddressChar c = true := by
  have hmore : (toDigit 16 c).isSome = true := by
    simp only [toDigit, Option.isSome_filter, Option.any_eq_true, decide_eq_true_eq] at hc ⊢
    obtain ⟨n, hn, hlt⟩ := hc
    exact ⟨n, hn, by omega⟩
  simp [isAddressChar, hmore]

theorem takes_readNumber {radix bound maxDigits : ℕ} {allowZeroPrefix : Bool}
    (hradix : radix ≤ 16) : Takes (readNumber radix bound maxDigits allowZeroPrefix) := by
  intro cs a rest h
  unfold readNumber at h
  dsimp only at h
  split at h
  · obtain ⟨-, rfl⟩ := Prod.mk.inj (Option.some.inj h)
    refine ⟨_, (List.takeWhile_append_dropWhile ..).symm, List.all_eq_true.mpr fun c hc ↦ ?_⟩
    have hdigit : (toDigit radix c).isSome = true :=
      List.mem_takeWhile_imp (p := fun c ↦ (toDigit radix c).isSome) hc
    exact isAddressChar_of_digit hradix hdigit
  · cases h

theorem takes_readSeparator {α : Type} {sep : Char} {index : ℕ} {inner : Reader α}
    (hsep : isAddressChar sep = true) (hinner : Takes inner) :
    Takes (readSeparator sep index inner) := by
  intro cs a rest h
  unfold readSeparator at h
  split at h
  · exact hinner cs a rest h
  · split at h
    next c cs =>
      split at h
      next heq =>
        subst heq
        exact (hinner cs a rest h).cons hsep
      next => cases h
    next => cases h

theorem takes_readIpv4Addr : Takes readIpv4Addr := by
  have hoctet (index : ℕ) : Takes (readSeparator '.' index (readNumber 10 255 3 false)) :=
    takes_readSeparator (by decide) (takes_readNumber (by decide))
  intro cs octets rest h
  simp only [readIpv4Addr, Option.bind_eq_bind, Option.pure_def, Option.bind_eq_some_iff,
    Option.some.injEq, Prod.mk.injEq, Prod.exists] at h
  obtain ⟨a, cs₁, ha, b, cs₂, hb, c, cs₃, hc, d, cs₄, hd, -, rfl⟩ := h
  calc
    Leaves cs cs₁ := hoctet 0 _ _ _ ha
    Leaves cs₁ cs₂ := hoctet 1 _ _ _ hb
    Leaves cs₂ cs₃ := hoctet 2 _ _ _ hc
    Leaves cs₃ cs₄ := hoctet 3 _ _ _ hd

theorem leaves_readGroups (remaining i : ℕ) (cs : List Char) :
    Leaves cs (readGroups remaining i cs).2 := by
  induction remaining generalizing i cs with
  | zero => exact .refl cs
  | succ remaining ih =>
      unfold readGroups
      split
      next octets rest h =>
        split at h
        · exact takes_readSeparator (by decide) takes_readIpv4Addr cs octets rest h
        · cases h
      next =>
        split
        next group rest h =>
          have htaken := takes_readSeparator (by decide) (takes_readNumber (by decide)) _ _ _ h
          exact htaken.trans (ih (i + 1) rest)
        next => exact .refl cs

theorem takes_readIpv6Addr : Takes readIpv6Addr := by
  intro cs result rest h
  have hhead := leaves_readGroups 8 0 cs
  unfold readIpv6Addr at h
  dsimp only at h
  split at h
  · obtain ⟨-, rfl⟩ := Prod.mk.inj (Option.some.inj h)
    exact hhead
  · split at h
    · cases h
    · split at h
      next cs' heq =>
        obtain ⟨-, rfl⟩ := Prod.mk.inj (Option.some.inj h)
        rw [heq] at hhead
        refine hhead.trans (.cons (by decide) (.cons (by decide) ?_))
        exact leaves_readGroups _ 0 cs'
      next => cases h

/-- What parses as an address has nothing but characters of an address. -/
theorem all_of_parse {text : String} {ip : IpAddr} (h : parse text = some ip) :
    text.toList.all isAddressChar = true := by
  have hleaves : Leaves text.toList [] := by
    unfold parse readIpAddr at h
    cases hv4 : readIpv4Addr text.toList with
    | some r =>
        rw [hv4] at h
        dsimp only at h
        split at h
        next heq =>
          obtain ⟨-, hrest⟩ := Prod.mk.inj (Option.some.inj heq)
          exact takes_readIpv4Addr _ r.1 _ (by rw [hv4, ← hrest])
        next => cases h
    | none =>
        rw [hv4] at h
        dsimp only at h
        split at h
        next heq =>
          obtain ⟨r, hv6, hr⟩ := Option.map_eq_some_iff.mp heq
          obtain ⟨-, hrest⟩ := Prod.mk.inj hr
          exact takes_readIpv6Addr _ r.1 _ (by rw [hv6, ← hrest])
        next => cases h
  obtain ⟨used, hused, hall⟩ := hleaves
  rwa [hused, List.append_nil]

end IpAddr

end ApiStarter
