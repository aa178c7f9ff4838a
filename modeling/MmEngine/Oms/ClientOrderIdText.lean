/-
# The text of a client order identifier

An identifier is the prefix, the session and the sequence number, the numbers in base
36, with dashes between them. Reading it back skips the prefix it is given and splits
the rest at the first dash, so a prefix may hold dashes of its own.

Two things stand between the text and its parts. The generator keeps sixteen characters
of its prefix and does not say when there were more, so it writes identifiers that the
prefix it was made with does not read. And the reader takes any numeral of up to
thirteen digits into a 64-bit register, with leading zeros and past the end of the
register, so it reads identifiers that the generator does not write.
-/

import MmEngine.Oms.OrderRecord
import MmEngine.Lib.Numeral

namespace MmEngine.Oms

open Numeral

namespace ClientOrderIdGenerator

theorem digitValue_kDigits :
    ∀ digit < 36, digitValue (kDigits.getD digit '0') = some digit := by
  decide

theorem digitValue_ofNat :
    ∀ code < 123, ∀ digit ∈ digitValue (Char.ofNat code),
      digit < 36 ∧ kDigits.getD digit '0' = Char.ofNat code := by
  decide

/-- What reads as a digit is how the alphabet writes that digit. -/
theorem digitValue_eq_some {c : Char} {digit : Nat} (h : digitValue c = some digit) :
    digit < 36 ∧ kDigits.getD digit '0' = c := by
  have hcode : c.toNat < 123 := by
    unfold digitValue at h
    split at h
    · rename_i hle
      have : c.toNat ≤ '9'.toNat := UInt32.le_iff_toNat_le.mp hle.2
      exact this.trans_lt (by decide)
    · split at h
      · rename_i hle
        have : c.toNat ≤ 'z'.toNat := UInt32.le_iff_toNat_le.mp hle.2
        exact this.trans_lt (by decide)
      · cases h
  have hall := digitValue_ofNat c.toNat hcode digit
  rw [Char.ofNat_toNat] at hall
  exact hall h

/-- The digits of a numeral, when every character is one. -/
def digitsOf (text : List Char) : Option (List Nat) := text.mapM digitValue

/-- How the alphabet writes digits. -/
def spell (ds : List Nat) : List Char := ds.map fun digit => kDigits.getD digit '0'

theorem digitsOf_spell {ds : List Nat} (hds : Digits 36 ds) : digitsOf (spell ds) = some ds := by
  unfold digitsOf spell
  induction ds with
  | nil => rfl
  | cons d ds ih =>
      obtain ⟨hd, hrest⟩ := List.forall_mem_cons.mp hds
      rw [List.map_cons, List.mapM_cons, digitValue_kDigits d hd, ih hrest]
      rfl

theorem digitsOf_eq_some {text : List Char} {ds : List Nat} (h : digitsOf text = some ds) :
    Digits 36 ds ∧ spell ds = text := by
  unfold digitsOf at h
  induction text generalizing ds with
  | nil =>
      cases h
      exact ⟨by simp [Digits], rfl⟩
  | cons c text ih =>
      rw [List.mapM_cons] at h
      obtain ⟨digit, hdigit, hrest⟩ := Option.bind_eq_some_iff.mp h
      obtain ⟨rest, htext, hcons⟩ := Option.bind_eq_some_iff.mp hrest
      cases hcons
      obtain ⟨hlt, hchar⟩ := digitValue_eq_some hdigit
      obtain ⟨hdigits, hspell⟩ := ih htext
      exact ⟨List.forall_mem_cons.mpr ⟨hlt, hdigits⟩, by rw [spell, List.map_cons, hchar,
        ← hspell, spell]⟩

theorem encodeBase36_eq_spell (number : Nat) :
    encodeBase36 number = spell (digits 36 number) := by
  unfold encodeBase36 Numeral.digits spell
  split
  · rfl
  · rw [List.map_reverse]

/-- One digit more in the 64-bit register of the reader. -/
def decodeStep (value : Option Nat) (digit : Char) : Option Nat :=
  match value, digitValue digit with
  | some value, some digit => some ((value * 36 + digit) % 2 ^ 64)
  | _, _ => none

theorem decodeBase36_eq (text : List Char) :
    decodeBase36 text =
      if text.isEmpty || 13 < text.length then none else text.foldl decodeStep (some 0) := rfl

theorem foldl_decodeStep_none (text : List Char) : text.foldl decodeStep none = none := by
  induction text with
  | nil => rfl
  | cons c text ih => exact ih

/-- The register holds what the digits so far stand for, modulo its size. -/
theorem foldl_decodeStep (text : List Char) (number : Nat) :
    text.foldl decodeStep (some (number % 2 ^ 64)) =
      (digitsOf text).map fun ds => ds.foldl (push 36) number % 2 ^ 64 := by
  unfold digitsOf
  induction text generalizing number with
  | nil => rfl
  | cons c text ih =>
      rw [List.foldl_cons, List.mapM_cons]
      cases hc : digitValue c with
      | none =>
          have hstep : decodeStep (some (number % 2 ^ 64)) c = none := by
            simp only [decodeStep, hc]
          rw [hstep, foldl_decodeStep_none]
          rfl
      | some digit =>
          have hstep : decodeStep (some (number % 2 ^ 64)) c =
              some (push 36 number digit % 2 ^ 64) := by
            simp only [decodeStep, hc, push, Option.some.injEq]
            omega
          rw [hstep, ih]
          cases text.mapM digitValue <;> rfl

/-- What the reader accepts: one to thirteen digits, modulo the register's size. -/
theorem decodeBase36_eq_some_iff {text : List Char} {number : Nat} :
    decodeBase36 text = some number ↔
      ∃ ds, digitsOf text = some ds ∧ ds ≠ [] ∧ ds.length ≤ 13 ∧
        number = value 36 ds % 2 ^ 64 := by
  have hzero : text.foldl decodeStep (some 0) =
      (digitsOf text).map fun ds => value 36 ds % 2 ^ 64 := foldl_decodeStep text 0
  rw [decodeBase36_eq, hzero]
  constructor
  · intro h
    split at h
    · cases h
    · rename_i hguard
      obtain ⟨ds, hds, hnumber⟩ := Option.map_eq_some_iff.mp h
      obtain ⟨_, hspell⟩ := digitsOf_eq_some hds
      rw [← hspell, spell] at hguard
      simp only [List.isEmpty_map, List.length_map, Bool.or_eq_true, List.isEmpty_iff,
        decide_eq_true_eq, not_or, not_lt] at hguard
      exact ⟨ds, hds, hguard.1, hguard.2, hnumber.symm⟩
  · rintro ⟨ds, hds, hne, hlength, rfl⟩
    obtain ⟨_, hspell⟩ := digitsOf_eq_some hds
    rw [hds, ← hspell, spell, if_neg (by simpa using ⟨hne, hlength⟩)]
    rfl

theorem digitsOf_encodeBase36 (number : Nat) :
    digitsOf (encodeBase36 number) = some (digits 36 number) := by
  rw [encodeBase36_eq_spell]
  exact digitsOf_spell (digits_lt (by decide) number)

/-- A number of the register is read back from its numeral. -/
theorem decodeBase36_encodeBase36 {number : Nat} (h : number < 2 ^ 64) :
    decodeBase36 (encodeBase36 number) = some number := by
  refine decodeBase36_eq_some_iff.mpr ⟨digits 36 number, ?_, digits_ne_nil _ _, ?_, ?_⟩
  · exact digitsOf_encodeBase36 number
  · exact length_digits_le (by decide) (by decide) (h.trans (by decide))
  · rw [value_digits, Nat.mod_eq_of_lt h]

/-- A numeral has no dash in it. -/
theorem dash_notMem_of_digitsOf {text : List Char} {ds : List Nat} (h : digitsOf text = some ds) :
    '-' ∉ text := by
  obtain ⟨hlt, rfl⟩ := digitsOf_eq_some h
  intro hmem
  obtain ⟨d, hd, hdash⟩ := List.mem_map.mp hmem
  have hvalue := digitValue_kDigits d (hlt d hd)
  rw [hdash] at hvalue
  cases hvalue

theorem dash_notMem_encodeBase36 (number : Nat) : '-' ∉ encodeBase36 number :=
  dash_notMem_of_digitsOf (digitsOf_encodeBase36 number)

theorem encodeBase36_inj {m n : Nat} : encodeBase36 m = encodeBase36 n ↔ m = n := by
  constructor
  · intro h
    have hdigits := congrArg digitsOf h
    rw [digitsOf_encodeBase36, digitsOf_encodeBase36, Option.some.injEq] at hdigits
    rw [← value_digits 36 m, hdigits, value_digits]
  · exact congrArg encodeBase36

/-! ## Splitting an identifier -/

/-- The text of an identifier: prefix, session, sequence. -/
def textOf (idPrefix session sequence : List Char) : List Char :=
  idPrefix ++ '-' :: (session ++ '-' :: sequence)

/-- The first dash of a text comes after a part without one. -/
theorem findIdx?_dash {text : List Char} {i : Nat} :
    (text.findIdx? fun c => c = '-') = some i ↔
      '-' ∉ text.take i ∧ text = text.take i ++ '-' :: text.drop (i + 1) := by
  rw [List.findIdx?_eq_some_iff_getElem]
  constructor
  · rintro ⟨hi, hdash, hbefore⟩
    constructor
    · intro hmem
      obtain ⟨j, hj, hget⟩ := List.mem_take_iff_getElem.mp hmem
      exact hbefore j (by omega) (by simpa using hget)
    · have hdrop := List.drop_eq_getElem_cons hi
      rw [of_decide_eq_true hdash] at hdrop
      rw [← hdrop, List.take_append_drop]
  · rintro ⟨hbefore, htext⟩
    have hlength := congrArg List.length htext
    simp only [List.length_append, List.length_take, List.length_cons, List.length_drop] at hlength
    have hi : i < text.length := by omega
    refine ⟨hi, ?_, fun j hj hdash => ?_⟩
    · have hget : text[i]? = some '-' := by
        conv_lhs => rw [htext]
        rw [List.getElem?_append_right (List.length_take_le _ _), List.length_take,
          Nat.min_eq_left hi.le, Nat.sub_self]
        rfl
      rw [List.getElem?_eq_getElem hi] at hget
      simpa using hget
    · apply hbefore
      rw [← of_decide_eq_true hdash]
      exact List.mem_take_iff_getElem.mpr ⟨j, by omega, rfl⟩

/-- The dashes of a text fix its parts. -/
theorem dash_split_inj {first second first' second' : List Char} (h : '-' ∉ first)
    (h' : '-' ∉ first') (heq : first ++ '-' :: second = first' ++ '-' :: second') :
    first = first' ∧ second = second' := by
  have hi : ((first ++ '-' :: second).findIdx? fun c => c = '-') = some first.length :=
    findIdx?_dash.mpr (by simpa using h)
  have hi' : ((first' ++ '-' :: second').findIdx? fun c => c = '-') = some first'.length :=
    findIdx?_dash.mpr (by simpa using h')
  rw [heq, hi', Option.some.injEq] at hi
  obtain ⟨hfirst, hsecond⟩ := List.append_inj heq hi.symm
  exact ⟨hfirst, (List.cons.inj hsecond).2⟩

/-- An identifier is read when it is the prefix and two numerals. -/
theorem parse_eq_some_iff {id : ClientOrderId} {idPrefix : List Char} {session sequence : Nat} :
    parse id idPrefix = some (session, sequence) ↔
      ∃ first second, id.chars = textOf idPrefix first second ∧
        decodeBase36 first = some session ∧ decodeBase36 second = some sequence := by
  unfold parse
  constructor
  · intro h
    split at h
    · cases h
    split at h
    · cases h
    split at h
    · cases h
    rename_i _ hstart hdash
    rw [not_not] at hstart hdash
    dsimp only at h
    split at h
    · cases h
    rename_i i hi
    split at h
    · rename_i s n hfirst hsecond
      cases h
      refine ⟨_, _, ?_, hfirst, hsecond⟩
      obtain ⟨hlt, hget⟩ := List.getElem?_eq_some_iff.mp hdash
      have hdrop := List.drop_eq_getElem_cons hlt
      have hwhole := List.take_append_drop idPrefix.length id.chars
      rw [hstart] at hwhole
      rw [textOf, ← (findIdx?_dash.mp hi).2, ← hget, ← hdrop, hwhole]
    · cases h
  · rintro ⟨first, second, hchars, hfirst, hsecond⟩
    obtain ⟨ds, hds, hne, _⟩ := decodeBase36_eq_some_iff.mp hfirst
    obtain ⟨es, hes, hne', _⟩ := decodeBase36_eq_some_iff.mp hsecond
    have hrest : (textOf idPrefix first second).drop (idPrefix.length + 1) =
        first ++ '-' :: second := by
      simp [textOf, List.drop_append]
    have hdash : '-' ∉ first := dash_notMem_of_digitsOf hds
    have hsplit : ((first ++ '-' :: second).findIdx? fun c => c = '-') = some first.length :=
      findIdx?_dash.mpr (by simpa using hdash)
    have hfirstPos : 0 < first.length := by
      obtain ⟨_, rfl⟩ := digitsOf_eq_some hds
      simpa [spell] using List.length_pos_of_ne_nil hne
    rw [hchars, if_neg (by simp [textOf]; omega), if_neg (by simp [textOf]),
      if_neg (by simp [textOf])]
    dsimp only
    rw [hrest, hsplit]
    simp [hfirst, hsecond]

/-- A new generator. The prefix is copied as far as it fits, and the flag that says
whether it did is dropped. -/
def make (idPrefix : List Char) (sessionId maxLength : Nat) : ClientOrderIdGenerator where
  idPrefix := (InlineString.assign idPrefix).1
  sessionId := sessionId
  maxLength := maxLength

/-- `next` with the counter as the 64-bit register it is. -/
def next64 (generator : ClientOrderIdGenerator) :
    Option ClientOrderId × ClientOrderIdGenerator :=
  let sequence := (generator.sequence + 1) % 2 ^ 64
  let text := generator.idText sequence
  if h : text.length ≤ generator.maxLength ∧ text.length ≤ 40 then
    (some ⟨text, h.2⟩,
      { generator with sequence := sequence, generated := generator.generated + 1 })
  else
    (none, { generator with sequence := sequence, failures := generator.failures + 1 })

/-- Until the register runs over, counting in it is counting. -/
theorem next64_eq_next {generator : ClientOrderIdGenerator}
    (h : generator.sequence + 1 < 2 ^ 64) : generator.next64 = generator.next := by
  have hsequence := Nat.mod_eq_of_lt h
  simp only [next64, hsequence]
  rfl

/-- The sequence number that a generator at `counter` writes next. -/
def following (counter : Nat) : Nat := (counter + 1) % 2 ^ 64

/-- What a generator made with the prefix, standing at `counter`, produces. -/
def produced (idPrefix : List Char) (session counter maxLength : Nat) : Option ClientOrderId :=
  (next64 ((make idPrefix session maxLength).restore counter)).1

/-- The identifier that the prefix, the session and the next number call for. -/
def wanted (idPrefix : List Char) (session counter : Nat) : List Char :=
  textOf idPrefix (encodeBase36 session) (encodeBase36 (following counter))

/-- The text has room in the venue's limit and in an identifier. -/
def Fits (text : List Char) (maxLength : Nat) : Prop :=
  text.length ≤ maxLength ∧ text.length ≤ 40

instance (text : List Char) (maxLength : Nat) : Decidable (Fits text maxLength) :=
  inferInstanceAs (Decidable (_ ∧ _))

theorem produced_eq_some_iff {idPrefix : List Char} {session counter maxLength : Nat}
    {id : ClientOrderId} :
    produced idPrefix session counter maxLength = some id ↔
      id.chars = wanted (idPrefix.take 16) session counter ∧ id.chars.length ≤ maxLength := by
  have htext : ((make idPrefix session maxLength).restore counter).idText (following counter) =
      wanted (idPrefix.take 16) session counter := rfl
  unfold produced next64
  dsimp only
  split
  · rename_i hfits
    rw [Option.some.injEq]
    constructor
    · rintro rfl
      exact ⟨htext, hfits.1⟩
    · rintro ⟨hchars, _⟩
      ext1
      exact hchars.symm
  · rename_i hfits
    constructor
    · intro h
      cases h
    · rintro ⟨hchars, hlength⟩
      refine absurd ⟨?_, ?_⟩ hfits
      · exact (congrArg List.length (hchars.trans htext.symm)).symm.trans_le hlength
      · exact (congrArg List.length (hchars.trans htext.symm)).symm.trans_le id.length_le

/-- An identifier ends in its two dashes and what has none, so what a longer prefix
reads was not written under the part of it that was kept. -/
theorem textOf_ne_of_truncated {idPrefix first second session sequence : List Char}
    (hlong : 16 < idPrefix.length) (hfirst : '-' ∉ first) (hsecond : '-' ∉ second)
    (hsession : '-' ∉ session) (hsequence : '-' ∉ sequence) :
    textOf idPrefix first second ≠ textOf (idPrefix.take 16) session sequence := by
  intro h
  have hcount := congrArg (List.count '-') h
  have hdrop := congrArg (List.drop 16) h
  have hsplit := congrArg (List.count '-') (List.take_append_drop 16 idPrefix)
  simp only [textOf, List.count_append, List.count_cons_self,
    List.count_eq_zero_of_not_mem hfirst, List.count_eq_zero_of_not_mem hsecond,
    List.count_eq_zero_of_not_mem hsession, List.count_eq_zero_of_not_mem hsequence]
    at hcount hsplit
  have htake : (idPrefix.take 16).length = 16 := by
    rw [List.length_take]
    omega
  rw [textOf, List.drop_append_of_le_length hlong.le, textOf] at hdrop
  rw [List.drop_append_of_le_length htake.ge, List.drop_eq_nil_of_le htake.le,
    List.nil_append] at hdrop
  -- The rest of the prefix begins with the dash, and has none.
  obtain ⟨c, rest, hrest⟩ := List.exists_cons_of_length_pos
    (l := idPrefix.drop 16) (by rw [List.length_drop]; omega)
  rw [hrest, List.cons_append] at hdrop
  have hc : c = '-' := (List.cons.inj hdrop).1
  have hzero : List.count '-' (idPrefix.drop 16) = 0 := by omega
  rw [hrest, hc, List.count_cons_self] at hzero
  omega

/-- An identifier that is produced gives back its session and number under the prefix
of its generator, and one that would not fit is refused. -/
def RoundTrips (idPrefix : List Char) (session counter maxLength : Nat) : Prop :=
  (∀ id, produced idPrefix session counter maxLength = some id →
    parse id idPrefix = some (session, following counter)) ∧
  (¬ Fits (wanted idPrefix session counter) maxLength →
    produced idPrefix session counter maxLength = none)

theorem following_lt (counter : Nat) : following counter < 2 ^ 64 := Nat.mod_lt _ (by decide)

theorem parse_of_wanted {idPrefix : List Char} {session counter : Nat} (hsession : session < 2 ^ 64)
    {id : ClientOrderId} (h : id.chars = wanted idPrefix session counter) :
    parse id idPrefix = some (session, following counter) :=
  parse_eq_some_iff.mpr ⟨_, _, h, decodeBase36_encodeBase36 hsession,
    decodeBase36_encodeBase36 (following_lt counter)⟩

theorem parse_of_truncated {idPrefix : List Char} {session counter : Nat}
    (hlong : 16 < idPrefix.length) {id : ClientOrderId}
    (h : id.chars = wanted (idPrefix.take 16) session counter) : parse id idPrefix = none := by
  cases hparse : parse id idPrefix with
  | none => rfl
  | some numbers =>
      obtain ⟨first, second, hchars, hfirst, hsecond⟩ := parse_eq_some_iff.mp hparse
      obtain ⟨_, hds, _⟩ := decodeBase36_eq_some_iff.mp hfirst
      obtain ⟨_, hes, _⟩ := decodeBase36_eq_some_iff.mp hsecond
      exact absurd (hchars.symm.trans h) (textOf_ne_of_truncated hlong
        (dash_notMem_of_digitsOf hds) (dash_notMem_of_digitsOf hes)
        (dash_notMem_encodeBase36 _) (dash_notMem_encodeBase36 _))

/-- Two identifiers of one prefix are the same only for the same two numbers. -/
theorem wanted_inj {idPrefix : List Char} {session counter session' counter' : Nat}
    (h : wanted idPrefix session counter = wanted idPrefix session' counter') :
    session = session' ∧ following counter = following counter' := by
  obtain ⟨hsession, hsequence⟩ := dash_split_inj (dash_notMem_encodeBase36 _)
    (dash_notMem_encodeBase36 _) (List.cons.inj (List.append_cancel_left h)).2
  exact ⟨encodeBase36_inj.mp hsession, encodeBase36_inj.mp hsequence⟩

/-- Every prefix that is kept whole makes the round trip, whatever is in it. A longer one
does not, unless nothing is produced even for the part of it that is kept. Two
identifiers under one prefix are never the same. -/
theorem roundTrips_iff (idPrefix : List Char) {session : Nat} (hsession : session < 2 ^ 64)
    (counter maxLength : Nat) :
    (RoundTrips idPrefix session counter maxLength ↔
      idPrefix.length ≤ 16 ∨ ¬ Fits (wanted (idPrefix.take 16) session counter) maxLength) ∧
    ∀ session' counter' maxLength' id,
      produced idPrefix session counter maxLength = some id →
      produced idPrefix session' counter' maxLength' = some id →
        session = session' ∧ following counter = following counter' := by
  refine ⟨⟨fun h => ?_, ?_⟩, fun session' counter' maxLength' id hid hid' => ?_⟩
  · by_contra hneither
    obtain ⟨hlong, hfits⟩ := not_or.mp hneither
    rw [not_not] at hfits
    have hproduced : produced idPrefix session counter maxLength =
        some ⟨wanted (idPrefix.take 16) session counter, hfits.2⟩ :=
      produced_eq_some_iff.mpr ⟨rfl, hfits.1⟩
    have hparse := h.1 _ hproduced
    rw [parse_of_truncated (Nat.lt_of_not_le hlong) rfl] at hparse
    cases hparse
  · rintro (hshort | hfull)
    · have htake : idPrefix.take 16 = idPrefix := List.take_of_length_le hshort
      constructor
      · intro id hid
        have hchars := (produced_eq_some_iff.mp hid).1
        rw [htake] at hchars
        exact parse_of_wanted hsession hchars
      · intro hfull
        rw [Option.eq_none_iff_forall_ne_some]
        intro id hid
        obtain ⟨hchars, hlength⟩ := produced_eq_some_iff.mp hid
        rw [htake] at hchars
        rw [← hchars] at hfull
        exact hfull ⟨hlength, id.length_le⟩
    · have hnone : ∀ id, produced idPrefix session counter maxLength ≠ some id := by
        intro id hid
        obtain ⟨hchars, hlength⟩ := produced_eq_some_iff.mp hid
        rw [← hchars] at hfull
        exact hfull ⟨hlength, id.length_le⟩
      exact ⟨fun id hid => absurd hid (hnone id),
        fun _ => Option.eq_none_iff_forall_ne_some.mpr hnone⟩
  · have hchars := (produced_eq_some_iff.mp hid).1
    exact wanted_inj (hchars.symm.trans (produced_eq_some_iff.mp hid').1)

theorem roundTrips_iff_dashed :
    (RoundTrips ['m', '-', 'm'] 7 41 36 ↔
      ['m', '-', 'm'].length ≤ 16 ∨ ¬ Fits (wanted (['m', '-', 'm'].take 16) 7 41) 36) ∧
    ∀ session' counter' maxLength' id,
      produced ['m', '-', 'm'] 7 41 36 = some id →
      produced ['m', '-', 'm'] session' counter' maxLength' = some id →
        7 = session' ∧ following 41 = following counter' :=
  roundTrips_iff ['m', '-', 'm'] (by decide) 41 36

/-- A prefix of seventeen characters is cut, and what is produced does not name it. -/
theorem truncated_prefix_lost :
    ∃ id, produced "abcdefghijklmnopq".toList 1 0 36 = some id ∧
      id.chars = "abcdefghijklmnop-1-1".toList ∧ parse id "abcdefghijklmnopq".toList = none :=
  ⟨⟨"abcdefghijklmnop-1-1".toList, by decide⟩, by decide, rfl, by decide⟩

/-- A generator of the prefix and the session writes the identifier for the number. -/
def Writes (idPrefix : List Char) (session sequence : Nat) (id : ClientOrderId) : Prop :=
  ∃ counter maxLength, following counter = sequence ∧
    produced idPrefix session counter maxLength = some id

/-- The numeral is the one the generator writes: without a leading zero, and of a number
that 64 bits hold. -/
def isPlain (numeral : List Char) : Bool :=
  (digitsOf numeral).all fun ds => decide (Canonical ds) && decide (value 36 ds < 2 ^ 64)

/-- What stands before and after the first dash behind the prefix. -/
def numerals (id : ClientOrderId) (idPrefix : List Char) : List Char × List Char :=
  let rest := id.chars.drop (idPrefix.length + 1)
  (rest.takeWhile fun c => c ≠ '-', (rest.dropWhile fun c => c ≠ '-').drop 1)

theorem writes_iff {idPrefix : List Char} {session sequence : Nat} (hsequence : sequence < 2 ^ 64)
    {id : ClientOrderId} :
    Writes idPrefix session sequence id ↔
      id.chars = textOf (idPrefix.take 16) (encodeBase36 session) (encodeBase36 sequence) := by
  constructor
  · rintro ⟨counter, maxLength, rfl, hid⟩
    exact (produced_eq_some_iff.mp hid).1
  · intro hchars
    have hfollowing : following (sequence + (2 ^ 64 - 1)) = sequence := by
      unfold following
      omega
    refine ⟨_, id.chars.length, hfollowing, produced_eq_some_iff.mpr ⟨?_, le_rfl⟩⟩
    rw [wanted, hfollowing, hchars]

/-- Of the numerals that are read as a number, the generator writes the plain one. -/
theorem eq_encodeBase36_iff {numeral : List Char} {number : Nat}
    (h : decodeBase36 numeral = some number) :
    numeral = encodeBase36 number ↔ isPlain numeral = true := by
  obtain ⟨ds, hds, _, _, rfl⟩ := decodeBase36_eq_some_iff.mp h
  obtain ⟨hlt, hspell⟩ := digitsOf_eq_some hds
  have hplain : isPlain numeral = true ↔ Canonical ds ∧ value 36 ds < 2 ^ 64 := by
    simp [isPlain, hds]
  rw [hplain]
  constructor
  · intro hnumeral
    have hdigits := digitsOf_encodeBase36 (value 36 ds % 2 ^ 64)
    rw [← hnumeral, hds, Option.some.injEq] at hdigits
    refine ⟨?_, ?_⟩
    · rw [hdigits]
      exact digits_canonical _ _
    · have hvalue := congrArg (value 36) hdigits
      rw [value_digits] at hvalue
      rw [hvalue]
      exact Nat.mod_lt _ (by decide)
  · rintro ⟨hcanonical, hfits⟩
    rw [Nat.mod_eq_of_lt hfits, encodeBase36_eq_spell, digits_value (by decide) hlt hcanonical,
      hspell]

theorem numerals_eq {id : ClientOrderId} {idPrefix first second : List Char}
    (h : id.chars = textOf idPrefix first second) (hfirst : '-' ∉ first) :
    numerals id idPrefix = (first, second) := by
  have hrest : id.chars.drop (idPrefix.length + 1) = first ++ '-' :: second := by
    rw [h]
    simp [textOf, List.drop_append]
  have hall : ∀ c ∈ first, decide (c ≠ '-') = true := by
    intro c hc
    exact decide_eq_true (ne_of_mem_of_not_mem hc hfirst)
  unfold numerals
  dsimp only
  rw [hrest, List.takeWhile_append_of_pos hall, List.dropWhile_append_of_pos hall]
  simp

/-- What is read was written, exactly when the prefix was kept whole and both numerals
are plain. -/
theorem parse_writes_iff {id : ClientOrderId} {idPrefix : List Char} {session sequence : Nat}
    (h : parse id idPrefix = some (session, sequence)) :
    Writes idPrefix session sequence id ↔
      idPrefix.length ≤ 16 ∧ isPlain (numerals id idPrefix).1 = true ∧
        isPlain (numerals id idPrefix).2 = true := by
  obtain ⟨first, second, hchars, hfirst, hsecond⟩ := parse_eq_some_iff.mp h
  obtain ⟨_, hds, _⟩ := decodeBase36_eq_some_iff.mp hfirst
  obtain ⟨_, hes, _, _, hsequence⟩ := decodeBase36_eq_some_iff.mp hsecond
  have hdash := dash_notMem_of_digitsOf hds
  have hdash' := dash_notMem_of_digitsOf hes
  have hlt : sequence < 2 ^ 64 := by
    rw [hsequence]
    exact Nat.mod_lt _ (by decide)
  rw [writes_iff hlt, numerals_eq hchars hdash, hchars, ← eq_encodeBase36_iff hfirst,
    ← eq_encodeBase36_iff hsecond]
  constructor
  · intro htext
    have hshort : idPrefix.length ≤ 16 := by
      by_contra hlong
      exact textOf_ne_of_truncated (Nat.lt_of_not_le hlong) hdash hdash'
        (dash_notMem_encodeBase36 _) (dash_notMem_encodeBase36 _) htext
    rw [List.take_of_length_le hshort] at htext
    exact ⟨hshort, dash_split_inj hdash (dash_notMem_encodeBase36 _)
      (List.cons.inj (List.append_cancel_left htext)).2⟩
  · rintro ⟨hshort, hsession, hnumber⟩
    rw [List.take_of_length_le hshort, ← hsession, ← hnumber]

theorem parse_writes_iff_plain :
    Writes ['m', 'm'] 7 42 ⟨['m', 'm', '-', '7', '-', '1', '6'], by decide⟩ ↔
      ['m', 'm'].length ≤ 16 ∧
        isPlain (numerals ⟨['m', 'm', '-', '7', '-', '1', '6'], by decide⟩ ['m', 'm']).1 = true ∧
        isPlain (numerals ⟨['m', 'm', '-', '7', '-', '1', '6'], by decide⟩ ['m', 'm']).2 = true :=
  parse_writes_iff (by decide)

/-- Another spelling of the same numbers passes for an identifier of ours. -/
theorem leading_zero_read :
    parse ⟨['m', 'm', '-', '0', '1', '-', '1'], by decide⟩ ['m', 'm'] = some (1, 1) ∧
      ¬ Writes ['m', 'm'] 1 1 ⟨['m', 'm', '-', '0', '1', '-', '1'], by decide⟩ := by
  refine ⟨by decide, fun h => ?_⟩
  have hchars := (writes_iff (by decide)).mp h
  revert hchars
  decide

end ClientOrderIdGenerator

end MmEngine.Oms
