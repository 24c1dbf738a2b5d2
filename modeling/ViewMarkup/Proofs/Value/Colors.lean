import Mathlib.Tactic.IntervalCases
import ViewMarkup.Proofs.Cutting
import ViewMarkup.Value.Color

/-!
# Colours written and read

A colour that is spelled with digits has four channels, each of which is made into a fraction of 255. Such a
fraction is rounded to the channel that it came from, so the eight digits that the colour is written with are
read as the same colour.

## Main statements

* `Color.channel_div` — the channel of a component is the one that it was made from.
* `Color.ofHex?_hex` — a colour of four channels is read as it is written.
-/

namespace ViewMarkup

namespace Color

variable {r g b a n : Nat} {c : Color} {text : String}

/-! ### One channel -/

/-- A hexadecimal digit is read as its value. -/
lemma hexValue?_hexDigit (h : n < 16) : Text.hexValue? (hexDigit n) = some n := by
  revert n
  decide

/-- It is no blank. -/
lemma isBlank_hexDigit (h : n < 16) : Text.isBlank (hexDigit n) = false := by
  revert n
  decide

/-- A channel is the component that it was made into, and that component is a number. -/
theorem channel_div (h : n < 256) :
    channel (n.toFloat / 255.0) = n ∧ (n.toFloat / 255.0 == n.toFloat / 255.0) = true := by
  -- All channels at once take the kernel far longer than one leading digit after the other.
  have hdigits : ∀ i < 16, ∀ j < 16, channel ((16 * i + j).toFloat / 255.0) = 16 * i + j ∧
      ((16 * i + j).toFloat / 255.0 == (16 * i + j).toFloat / 255.0) = true := by
    intro i hi
    interval_cases i <;> decide +kernel
  have hn := hdigits (n / 16) (by omega) (n % 16) (by omega)
  rwa [Nat.div_add_mod] at hn

/-! ### Digits behind a sharp sign -/

/-- The value of a hexadecimal digit is below sixteen. -/
lemma hexValue?_lt {d : Char} (h : Text.hexValue? d = some n) : n < 16 := by
  have hle {e f : Char} (h : e ≤ f) : e.toNat ≤ f.toNat := UInt32.le_iff_toNat_le.1 h
  simp only [Text.hexValue?] at h
  split_ifs at h with hdigit hlower hupper
  · have := hle hdigit.2
    grind
  · have := hle hlower.2
    grind
  · have := hle hupper.2
    grind

/-- So are the values of several. -/
lemma lt_of_mem_mapM {ds : List Char} {ns : List Nat} (h : ds.mapM Text.hexValue? = some ns) :
    ∀ n ∈ ns, n < 16 := by
  induction ds generalizing ns with
  | nil =>
    cases h
    exact fun _ hn => absurd hn List.not_mem_nil
  | cons d ds ih =>
    rw [List.mapM_cons] at h
    obtain ⟨m, hm, h⟩ := Option.bind_eq_some_iff.1 h
    obtain ⟨ms, hms, h⟩ := Option.bind_eq_some_iff.1 h
    cases h
    exact List.forall_mem_cons.2 ⟨hexValue?_lt hm, ih hms⟩

/-- A text with a sharp sign is the colour of four channels. -/
lemma ofHex?_eq_some (h : ofHex? text = some c) :
    ∃ r g b a, r < 256 ∧ g < 256 ∧ b < 256 ∧ a < 256 ∧ c = ofChannels r g b a := by
  unfold ofHex? at h
  split at h
  · split at h
    · next hdigits =>
      have hlt := lt_of_mem_mapM hdigits
      simp only [List.forall_mem_cons] at hlt
      cases h
      exact ⟨_, _, _, _, by omega, by omega, by omega, by omega, rfl⟩
    · next hdigits =>
      have hlt := lt_of_mem_mapM hdigits
      simp only [List.forall_mem_cons] at hlt
      cases h
      exact ⟨_, _, _, _, by omega, by omega, by omega, by omega, rfl⟩
    · next hdigits =>
      have hlt := lt_of_mem_mapM hdigits
      simp only [List.forall_mem_cons] at hlt
      cases h
      exact ⟨_, _, _, _, by omega, by omega, by omega, by omega, rfl⟩
    · cases h
  · cases h

/-- A color is written as the pairs of digits of its channels. -/
lemma hex_ofChannels (hr : r < 256) (hg : g < 256) (hb : b < 256) (ha : a < 256) :
    (ofChannels r g b a).hex =
      String.ofList ('#' :: (hexPair r ++ hexPair g ++ hexPair b ++ hexPair a)) := by
  rw [hex, ofChannels, (channel_div hr).1, (channel_div hg).1, (channel_div hb).1, (channel_div ha).1]

/-- **A colour of four channels is read as it is written.** -/
theorem ofHex?_hex (hr : r < 256) (hg : g < 256) (hb : b < 256) (ha : a < 256) :
    ofHex? (ofChannels r g b a).hex = some (ofChannels r g b a) := by
  have hpair {n : Nat} (h : n < 256) : Text.hexValue? (hexDigit (n / 16)) = some (n / 16) ∧
      Text.hexValue? (hexDigit (n % 16)) = some (n % 16) :=
    ⟨hexValue?_hexDigit (by omega), hexValue?_hexDigit (by omega)⟩
  rw [hex_ofChannels hr hg hb ha]
  simp [ofHex?, hexPair, hpair hr, hpair hg, hpair hb, hpair ha, Nat.div_add_mod]

/-- No colour has a name that begins with a sharp sign. -/
lemma named?_eq_none (h : text.toList.head? = some '#') : named? text = none := by
  have hnames : ∀ word ∈ names.map Prod.fst, word.toList.head? ≠ some '#' := by decide
  rw [named?, List.lookup_eq_none_iff]
  intro p hp
  rw [bne_iff_ne]
  rintro rfl
  exact hnames _ (List.mem_map_of_mem hp) h

/-- The written form begins with a sharp sign, and no blank stands at its ends. -/
lemma isTrimmed_hex (hr : r < 256) (hg : g < 256) (hb : b < 256) (ha : a < 256) :
    (ofChannels r g b a).hex.toList.head? = some '#' ∧ Text.IsTrimmed (ofChannels r g b a).hex.toList := by
  have hpair {n : Nat} (h : n < 256) : ∀ c ∈ hexPair n, Text.isBlank c = false := by
    simp only [hexPair, List.forall_mem_cons]
    exact ⟨isBlank_hexDigit (by omega), isBlank_hexDigit (by omega), fun _ h => absurd h List.not_mem_nil⟩
  rw [hex_ofChannels hr hg hb ha, String.toList_ofList]
  refine ⟨rfl, Text.isTrimmed_of_forall ?_⟩
  simp only [List.forall_mem_cons, List.forall_mem_append]
  exact ⟨by decide, ⟨⟨hpair hr, hpair hg⟩, hpair hb⟩, hpair ha⟩

/-- The components of four channels are numbers. -/
lemma beq_self (hr : r < 256) (hg : g < 256) (hb : b < 256) (ha : a < 256) :
    (ofChannels r g b a == ofChannels r g b a) = true := by
  change (_ == _ && (_ == _ && (_ == _ && _ == _))) = true
  simp only [(channel_div hr).2, (channel_div hg).2, (channel_div hb).2, (channel_div ha).2,
    Bool.and_self]

end Color

end ViewMarkup
