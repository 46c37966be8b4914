import ConfigShell.Proofs.Line.Recovery
/-!
# The value of an unfinished escape

A state keeps one number for all kinds of escapes. Read from the start, it is the number that the
digits of the escape under way write (`Escape.Accumulates`), and zero where there are none. So it has a
bound in each state, and the last digit of an escape makes a byte or the code of a character of it,
except where the code is no character's (`stepAll_accumulates`).
-/

namespace ConfigShell.Line

/-- What has come of the text read so far, when an escape has come this far: the text ends in what is
there of the escape, and the value is the number that its digits write. -/
def Escape.Accumulates (read : Text) (code : Int) : Escape → Prop
  | .none | .ended | .control => code = 0
  | .backslash => code = 0 ∧ ∃ front, read = front ++ [0x5C]
  | .octal ⟨0, _⟩ => ∃ (front : Text) (a : Fin 4),
      read = front ++ [0x5C, 0x30 + UInt8.ofNat a.val] ∧ code = a.val
  | .octal ⟨_ + 1, _⟩ => ∃ (front : Text) (a : Fin 4) (b : Fin 8),
      read = front ++ [0x5C, 0x30 + UInt8.ofNat a.val, 0x30 + UInt8.ofNat b.val] ∧
        code = a.val * 8 + b.val
  | .hex form seen => ∃ front digits,
      read = front ++ 0x5C :: form.letter :: digits ∧ digits.length = seen.val ∧
        (∀ d ∈ digits, isHexDigit d) ∧ code = hexNumber digits

/-- How many values the digits have that are there when an escape has come this far: one if there are
none. -/
def Escape.bound : Escape → Nat
  | .none | .ended | .backslash | .control => 1
  | .octal seen => 4 * 8 ^ seen.val
  | .hex _ seen => 16 ^ seen.val

namespace State

/-- Takes the bytes of a text one after another, each in the state that the one before left. -/
def stepAll (s : State) (t : Text) : Except Fault State :=
  t.foldlM (fun s b => (s.step b).map Step.state) s

variable {s s' : State} {b : UInt8} {step : Step} {read t : Text} {fault : Fault}
  {form : HexForm} {digit : Nat}

/-! ## One byte more -/

/-- Outside escapes a backslash begins one, and the value stays. -/
theorem escape_stepPlain (h : s.escape = .none) (b : UInt8) :
    (s.stepPlain b).state.code = s.code ∧
      ((s.stepPlain b).state.escape = .none ∨
        b = 0x5C ∧ (s.stepPlain b).state.escape = .backslash) := by
  cases hquote : s.quote <;> simp only [stepPlain, hquote]
  all_goals repeat' split
  all_goals simp_all

theorem accumulates_stepPlain (hescape : s.escape = .none) (hcode : s.code = 0) :
    (s.stepPlain b).state.escape.Accumulates (read ++ [b]) (s.stepPlain b).state.code := by
  obtain ⟨hstays, hnone | ⟨rfl, hbackslash⟩⟩ := escape_stepPlain hescape b
  · rw [hnone, hstays]
    exact hcode
  · rw [hbackslash, hstays]
    exact ⟨hcode, read, rfl⟩

theorem accumulates_stepBackslash {front : Text} (hescape : s.escape = .backslash)
    (hcode : s.code = 0) (hread : read = front ++ [0x5C]) (h : s.step b = .ok step) :
    step.state.escape.Accumulates (read ++ [b]) step.state.code := by
  have hbegun : s.stepBackslash b = .ok step := by
    rw [← h, State.step, hescape]
  rw [hread, List.append_assoc, List.singleton_append]
  unfold stepBackslash at hbegun
  split at hbegun
  · cases hbegun
    exact hcode
  split at hbegun
  · rename_i hfirst
    obtain ⟨a, rfl⟩ := exists_octalFirst (by simpa using hfirst)
    cases (step_octalFirst hescape a).symm.trans h
    exact ⟨front, a, rfl, rfl⟩
  split at hbegun
  · cases hbegun
    rfl
  split at hbegun
  · rename_i form hform
    cases hbegun
    obtain rfl := hexForm?_eq_some_iff.mp hform
    exact ⟨front, [], rfl, rfl, by simp, rfl⟩
  · cases hbegun

theorem accumulates_stepOctal {seen : Fin 2} (hescape : s.escape = .octal seen)
    (hread : (Escape.octal seen).Accumulates read s.code) (h : s.step b = .ok step) :
    step.state.escape.Accumulates (read ++ [b]) step.state.code := by
  obtain ⟨k, rfl⟩ := exists_octalDigit (isOctalDigit_of_step hescape h)
  obtain rfl | rfl : seen = 0 ∨ seen = 1 := by omega
  · obtain ⟨front, a, hread, hcode⟩ := hread
    cases (step_octalDigit hescape k).symm.trans h
    refine ⟨front, a, k, ?_, by rw [hcode]⟩
    rw [hread, List.append_assoc]
    rfl
  · obtain ⟨out, -, rfl⟩ := exists_of_map_completed ((step_octalLast hescape k).symm.trans h)
    rfl

/-- One digit more. -/
theorem hexNumber_concat (digits : Text) (hdigit : hexValue? b = some digit) :
    hexNumber (digits ++ [b]) = hexNumber digits * 16 + digit := by
  simp [hexNumber, hdigit]

theorem accumulates_stepHex {seen : Fin form.digits} (hescape : s.escape = .hex form seen)
    (hread : (Escape.hex form seen).Accumulates read s.code) (h : s.step b = .ok step) :
    step.state.escape.Accumulates (read ++ [b]) step.state.code := by
  obtain ⟨digit, hdigit⟩ := exists_hexDigit hescape h
  by_cases hmore : seen.val + 1 < form.digits
  · obtain ⟨front, digits, hread, hlength, hdigits, hcode⟩ := hread
    cases (step_hexDigit hescape hdigit hmore).symm.trans h
    refine ⟨front, digits ++ [b], ?_, ?_, ?_, ?_⟩
    · rw [hread, List.append_assoc]
      rfl
    · rw [List.length_append, hlength]
      rfl
    · rw [List.forall_mem_append]
      exact ⟨hdigits, by simp [isHexDigit, hdigit]⟩
    · rw [hexNumber_concat digits hdigit, hcode]
      rfl
  · have hlast : seen.val + 1 = form.digits := by omega
    obtain ⟨out, -, rfl⟩ := exists_of_map_completed ((step_hexLast hescape hdigit hlast).symm.trans h)
    rfl

theorem accumulates_stepControl (hescape : s.escape = .control) (hcode : s.code = 0)
    (h : s.step b = .ok step) :
    step.state.escape.Accumulates (read ++ [b]) step.state.code := by
  simp only [State.step, hescape, stepControl] at h
  split at h
  · cases h
    exact hcode
  · cases h

/-- **A byte more**: what has come of the text so far is kept. -/
theorem accumulates_step (hread : s.escape.Accumulates read s.code) (h : s.step b = .ok step) :
    step.state.escape.Accumulates (read ++ [b]) step.state.code := by
  cases hescape : s.escape with
  | none =>
    rw [hescape] at hread
    simp only [State.step, hescape] at h
    cases h
    exact accumulates_stepPlain hescape hread
  | ended =>
    rw [hescape] at hread
    simp only [State.step, hescape] at h
    cases h
    exact accumulates_stepPlain rfl hread
  | backslash =>
    rw [hescape] at hread
    obtain ⟨hcode, front, hread⟩ := hread
    exact accumulates_stepBackslash hescape hcode hread h
  | octal seen => exact accumulates_stepOctal hescape (hescape ▸ hread) h
  | hex form seen => exact accumulates_stepHex hescape (hescape ▸ hread) h
  | control =>
    rw [hescape] at hread
    exact accumulates_stepControl hescape hread h

/-- **A text more.** -/
theorem accumulates_stepAll (hread : s.escape.Accumulates read s.code)
    (h : s.stepAll t = .ok s') : s'.escape.Accumulates (read ++ t) s'.code := by
  induction t generalizing s read with
  | nil =>
    cases h
    rw [List.append_nil]
    exact hread
  | cons b t ih =>
    cases hstep : s.step b with
    | error fault =>
      simp [stepAll, hstep, Except.map, Bind.bind, Except.bind] at h
    | ok step =>
      simp [stepAll, hstep, Except.map, Bind.bind, Except.bind] at h
      have hlater := ih (accumulates_step hread hstep) h
      rwa [List.append_assoc] at hlater

/-! ## How large the value gets -/

/-- The value is one of as many as the digits of the escape so far can write. -/
def IsBounded (s : State) : Prop := 0 ≤ s.code ∧ s.code < s.escape.bound

theorem bounds_of_accumulates {escape : Escape} {code : Int} (h : escape.Accumulates read code) :
    0 ≤ code ∧ code < escape.bound := by
  cases escape with
  | none | ended | control =>
    obtain rfl : code = 0 := h
    decide
  | backslash =>
    obtain ⟨rfl, -⟩ := h
    decide
  | octal seen =>
    obtain rfl | rfl : seen = 0 ∨ seen = 1 := by omega
    · obtain ⟨front, a, -, rfl⟩ := h
      have hlt : (a.val : Int) < 4 := by omega
      exact ⟨by omega, hlt⟩
    · obtain ⟨front, a, c, -, rfl⟩ := h
      have hlt : (a.val : Int) * 8 + c.val < 32 := by omega
      exact ⟨by omega, hlt⟩
  | hex form seen =>
    obtain ⟨front, digits, -, hlength, hdigits, rfl⟩ := h
    have hlt := hexNumber_lt digits hdigits
    rw [hlength] at hlt
    exact ⟨Int.natCast_nonneg _, Int.ofNat_lt.mpr hlt⟩

theorem hasDigits_of_isBounded (h : s.IsBounded) (hcode : s.code ≠ 0) :
    (∃ seen, s.escape = .octal seen) ∨ ∃ form seen, s.escape = .hex form seen ∧ 0 < seen.val := by
  obtain ⟨hnonneg, hlt⟩ := h
  cases hescape : s.escape with
  | none | ended | backslash | control =>
    rw [hescape] at hlt
    have hzero : s.code < 1 := hlt
    omega
  | octal seen => exact .inl ⟨seen, rfl⟩
  | hex form seen =>
    refine .inr ⟨form, seen, rfl, Nat.pos_of_ne_zero fun hnone => ?_⟩
    rw [hescape, Escape.bound, hnone] at hlt
    have hzero : s.code < 1 := hlt
    omega

/-! ## What the last digit makes of the value -/

theorem exists_byteOutput_of_bounds {code : Int} (hnonneg : 0 ≤ code) (hlt : code < 256) :
    ∃ out : UInt8, (out.toNat : Int) = code ∧ byteOutput code = .ok [out] := by
  obtain ⟨n, rfl⟩ := Int.eq_ofNat_of_zero_le hnonneg
  obtain ⟨out, hout, hmade⟩ := exists_byteOutput (Int.ofNat_lt.mp hlt)
  exact ⟨out, congrArg Int.ofNat hout, hmade⟩

/-- An octal escape makes the byte of its value. -/
theorem exists_byte_of_octal (h : s.IsBounded) (hescape : s.escape = .octal 1)
    (hdigit : isOctalDigit b) :
    ∃ out : UInt8, (out.toNat : Int) = s.code * 8 + (b.toNat - 0x30) ∧
      s.step b = .ok (s.completed [out]) := by
  obtain ⟨k, rfl⟩ := exists_octalDigit hdigit
  have hvalue : ∀ k : Fin 8, ((0x30 + UInt8.ofNat k.val).toNat : Int) - 0x30 = k.val := by decide
  obtain ⟨hnonneg, hlt⟩ := h
  rw [hescape] at hlt
  have hlt : s.code < 32 := hlt
  have hnext : 0 ≤ s.code * 8 + k.val := by omega
  obtain ⟨out, hout, hmade⟩ := exists_byteOutput_of_bounds hnext (by omega)
  rw [hvalue k, step_octalLast hescape, hmade]
  exact ⟨out, hout, rfl⟩

/-- A hexadecimal escape of two digits makes the byte of its value. -/
theorem exists_byte_of_hex (h : s.IsBounded) {seen : Fin HexForm.byte.digits}
    (hescape : s.escape = .hex .byte seen) (hlast : seen.val + 1 = HexForm.byte.digits)
    (hdigit : hexValue? b = some digit) :
    ∃ out : UInt8, (out.toNat : Int) = s.code * 16 + digit ∧
      s.step b = .ok (s.completed [out]) := by
  obtain ⟨hnonneg, hlt⟩ := h
  have hone : seen.val = 1 := Nat.succ.inj hlast
  rw [hescape, Escape.bound, hone] at hlt
  have hlt : s.code < 16 := hlt
  have hdigitLt := hexValue?_lt hdigit
  have hnext : 0 ≤ s.code * 16 + digit := by omega
  obtain ⟨out, hout, hmade⟩ := exists_byteOutput_of_bounds hnext (by omega)
  rw [step_hexLast hescape hdigit hlast, hexOutput, hmade]
  exact ⟨out, hout, rfl⟩

/-- **A hexadecimal escape of four or eight digits** makes the character of its value, unless there is
none of that code. -/
theorem exists_code_of_hex (h : s.IsBounded) (hform : form ≠ .byte) {seen : Fin form.digits}
    (hescape : s.escape = .hex form seen) (hlast : seen.val + 1 = form.digits)
    (hdigit : hexValue? b = some digit) :
    ∃ n : Nat, (n : Int) = s.code * 16 + digit ∧
      ((∃ c : Char, c.toNat = n ∧ s.step b = .ok (s.completed (String.utf8EncodeChar c))) ∨
        (0xD800 ≤ n ∧ n ≤ 0xDFFF) ∧ s.step b = .error (.surrogate n) ∨
        0x10FFFF < n ∧ s.step b = .error (.beyondUnicode n)) := by
  have hnonneg := h.1
  obtain ⟨n, hn⟩ : ∃ n : Nat, s.code * 16 + digit = n := Int.eq_ofNat_of_zero_le (by omega)
  refine ⟨n, hn.symm, ?_⟩
  rw [step_hexLast hescape hdigit hlast, hn, hexOutput_of_code hform]
  by_cases hbeyond : 0x10FFFF < n
  · rw [if_pos hbeyond]
    exact .inr (.inr ⟨hbeyond, rfl⟩)
  by_cases hsurrogate : 0xD800 ≤ n ∧ n ≤ 0xDFFF
  · rw [if_neg hbeyond, if_pos hsurrogate]
    exact .inr (.inl ⟨hsurrogate, rfl⟩)
  · have hvalid : n.isValidChar := by
      show n < 0xD800 ∨ 0xDFFF < n ∧ n < 0x110000
      omega
    have hself : (Char.ofNat n).toNat = n := by
      rw [Char.ofNat, dif_pos hvalid]
      rfl
    rw [if_neg hbeyond, if_neg hsurrogate]
    exact .inl ⟨Char.ofNat n, hself, rfl⟩

end State

/-! ## Why a byte cannot stand in a state -/

namespace Fault

/-- The faults that a byte of an escape can have. -/
inductive IsOfByte (b : UInt8) : Fault → Prop
  | unknownEscape : IsOfByte b (.unknownEscape b)
  | notOctal : IsOfByte b (.notOctal b.toNat)
  | notHexadecimal : IsOfByte b (.notHexadecimal b)
  | notControl : IsOfByte b (.notControl b.toNat)
  | beyondUnicode (n : Nat) : IsOfByte b (.beyondUnicode n)
  | surrogate (n : Nat) : IsOfByte b (.surrogate n)

variable {b : UInt8} {fault : Fault}

theorem IsOfByte.isOutOfRange_eq_false (h : IsOfByte b fault) : fault.isOutOfRange = false := by
  cases h <;> rfl

/-- Texts that begin differently are different. -/
theorem append_ne_of_take {s t u : Text} {n : Nat} (hlength : n ≤ s.length)
    (hne : s.take n ≠ u.take n) : s ++ t ≠ u := by
  rintro rfl
  exact hne (List.take_append_of_le_length hlength).symm

/-- The wording of a state that is none of those there are. -/
def unknownState : Text := "internal error: unknown escape state"

theorem IsOfByte.message_ne (h : IsOfByte b fault) : fault.message ≠ unknownState := by
  cases h
  all_goals
    simp only [message, octalHead, controlHead, List.append_assoc]
    exact append_ne_of_take (n := 3) (by decide) (by decide)

end Fault

namespace State

variable {s : State} {b : UInt8} {read : Text} {fault : Fault}

/-- **A byte that cannot stand in a state** is a wrong one for its escape, or it ends an escape whose
value is no character's. -/
theorem isOfByte_of_step (h : s.IsBounded) (hstep : s.step b = .error fault) :
    fault.IsOfByte b := by
  cases hescape : s.escape with
  | none | ended =>
    simp only [State.step, hescape] at hstep
    cases hstep
  | backslash =>
    simp only [State.step, hescape, stepBackslash] at hstep
    repeat' split at hstep
    all_goals cases hstep
    exact .unknownEscape
  | octal seen =>
    by_cases hdigit : isOctalDigit b
    · obtain rfl | rfl : seen = 0 ∨ seen = 1 := by omega
      · obtain ⟨k, rfl⟩ := exists_octalDigit hdigit
        cases (step_octalDigit hescape k).symm.trans hstep
      · obtain ⟨out, -, hmade⟩ := exists_byte_of_octal h hescape hdigit
        cases hmade.symm.trans hstep
    · simp only [State.step, hescape, stepOctal, if_neg hdigit] at hstep
      cases hstep
      exact .notOctal
  | hex form seen =>
    cases hdigit : hexValue? b with
    | none =>
      simp only [State.step, hescape, stepHex, hdigit] at hstep
      cases hstep
      exact .notHexadecimal
    | some digit =>
      by_cases hmore : seen.val + 1 < form.digits
      · cases (step_hexDigit hescape hdigit hmore).symm.trans hstep
      have hlast : seen.val + 1 = form.digits := by omega
      by_cases hform : form = .byte
      · subst hform
        obtain ⟨out, -, hmade⟩ := exists_byte_of_hex h hescape hlast hdigit
        cases hmade.symm.trans hstep
      · obtain ⟨n, -, ⟨c, -, hmade⟩ | ⟨-, hmade⟩ | ⟨-, hmade⟩⟩ :=
          exists_code_of_hex h hform hescape hlast hdigit
        · cases hmade.symm.trans hstep
        · cases hmade.symm.trans hstep
          exact .surrogate n
        · cases hmade.symm.trans hstep
          exact .beyondUnicode n
  | control =>
    simp only [State.step, hescape, stepControl] at hstep
    split at hstep
    · cases hstep
    · cases hstep
      exact .notControl

/-- **The value of an escape** is, wherever reading comes to from the start, the number that the digits
of the escape under way write; it is zero where there are none, and never more than they can write. So
no byte fails to be read for the value's sake, and no state is unknown: the last octal digit makes the
byte of the value, so does the second one of two hexadecimal digits, and the last one of four or eight
makes the character of it, which is refused exactly if it is a surrogate or beyond Unicode. -/
theorem stepAll_accumulates (h : stepAll {} read = .ok s) :
    s.escape.Accumulates read s.code ∧
    (s.code ≠ 0 →
      (∃ seen, s.escape = .octal seen) ∨ ∃ form seen, s.escape = .hex form seen ∧ 0 < seen.val) ∧
    (0 ≤ s.code ∧ s.code < s.escape.bound) ∧
    (∀ b fault, s.step b = .error fault →
      fault.isOutOfRange = false ∧ fault.message ≠ Fault.unknownState) ∧
    (∀ b, s.escape = .octal 1 → isOctalDigit b →
      ∃ out : UInt8, (out.toNat : Int) = s.code * 8 + (b.toNat - 0x30) ∧
        s.step b = .ok (s.completed [out])) ∧
    ∀ form seen b digit, s.escape = .hex form seen → seen.val + 1 = form.digits →
      hexValue? b = some digit → ∃ n : Nat, (n : Int) = s.code * 16 + digit ∧
        if form = .byte then ∃ out : UInt8, out.toNat = n ∧ s.step b = .ok (s.completed [out])
        else
          (∃ c : Char, c.toNat = n ∧ s.step b = .ok (s.completed (String.utf8EncodeChar c))) ∨
            (0xD800 ≤ n ∧ n ≤ 0xDFFF) ∧ s.step b = .error (.surrogate n) ∨
            0x10FFFF < n ∧ s.step b = .error (.beyondUnicode n) := by
  have hstart : ({} : State).escape.Accumulates [] ({} : State).code := rfl
  have hread := accumulates_stepAll hstart h
  rw [List.nil_append] at hread
  have hbounded : s.IsBounded := bounds_of_accumulates hread
  refine ⟨hread, hasDigits_of_isBounded hbounded, hbounded, ?_, ?_, ?_⟩
  · intro b fault hfault
    have hkind := isOfByte_of_step hbounded hfault
    exact ⟨hkind.isOutOfRange_eq_false, hkind.message_ne⟩
  · exact fun b => exists_byte_of_octal hbounded
  · intro form seen b digit hescape hlast hdigit
    split
    · rename_i hform
      subst hform
      obtain ⟨out, hvalue, hmade⟩ := exists_byte_of_hex hbounded hescape hlast hdigit
      exact ⟨out.toNat, hvalue, out, rfl, hmade⟩
    · exact exists_code_of_hex hbounded ‹_› hescape hlast hdigit

/-- A word with an escape, and behind it, in quotes, one that is complete and one that lacks its last
digit. -/
def lackingDigit : Text := "a\\101 \"\\x41\\U0010FFF"

/-- With the digit it makes the last character of all. -/
theorem stepAll_accumulates_lackingDigit :
    ∃ s, stepAll {} lackingDigit = .ok s ∧ s.quote = .double ∧
      s.escape = .hex .long ⟨7, by decide⟩ ∧ s.code = 0x10FFF ∧
      ∃ c : Char, c.toNat = 0x10FFFF ∧
        s.step 0x46 = .ok (s.completed (String.utf8EncodeChar c)) := by
  have hread : stepAll {} lackingDigit = .ok
      { escape := .hex .long ⟨7, by decide⟩, quote := .double, code := 0x10FFF } := rfl
  refine ⟨_, hread, rfl, rfl, rfl, ?_⟩
  obtain ⟨-, -, -, -, -, hlast⟩ := stepAll_accumulates hread
  obtain ⟨n, hn, hcode⟩ := hlast .long ⟨7, by decide⟩ 0x46 15 rfl rfl rfl
  obtain rfl : n = 0x10FFFF := Int.ofNat.inj hn
  rcases hcode with hmade | ⟨⟨-, hlow⟩, -⟩ | ⟨hhigh, -⟩
  · exact hmade
  · exact absurd hlow (by decide)
  · exact absurd hhigh (by decide)

end State

end ConfigShell.Line
