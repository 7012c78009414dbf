import PackedBits.Proofs.Decoding.Verdict

/-!
# Only the numbers count

What is decoded from a text in JSON does not depend on how its numbers are set out. It is what the
check says of the numbers, if all of them fit a word, and a refusal before anything is checked if
one of them does not.

## Main statements

* `ofJson_eq_check`, `ofJson_overflow` — numbers that fit, and numbers of which one does not
* `ofJson_layout` — the outcome, from the numbers alone
-/

namespace PackedBits.Bitmap

open Json (Layout)

/-- A bitmap is known from its numbers. -/
theorem ext_toNat {a b : Bitmap} (hsize : a.size.toNat = b.size.toNat)
    (hwords : a.words.toList.map UInt64.toNat = b.words.toList.map UInt64.toNat) : a = b := by
  obtain ⟨n, ws⟩ := a
  obtain ⟨m, vs⟩ := b
  obtain rfl := UInt64.toNat.inj hsize
  have hlist : ws.toList = vs.toList :=
    (List.map_inj_right fun _ _ => UInt64.toNat.inj).mp hwords
  rw [Array.toList_inj.mp hlist]

theorem map_toNat_ofNat {ns : List Nat} (h : ∀ n ∈ ns, n < UInt64.size) :
    (ns.map UInt64.ofNat).map UInt64.toNat = ns := by
  rw [List.map_map]
  calc
    ns.map (UInt64.toNat ∘ UInt64.ofNat) = ns.map id :=
      List.map_congr_left fun n hn => UInt64.toNat_ofNat_of_lt' (h n hn)
    _ = ns := List.map_id ns

section

variable {layout : Layout} {bits : Nat} {elems : List Nat} {text : String}

/-- Numbers that fit are judged by the check alone. -/
theorem ofJson_eq_check {a : Bitmap} (ha : Json.pair? bits elems = some a)
    (h : layout.Renders bits elems text) :
    ofJson text = a.check.map (·.mapError fun m => .json (.mismatch m)) := by
  have hreads := Json.reads_record h
  rw [ha] at hreads
  obtain ⟨rest, hrest, hread⟩ := hreads
  rw [Json.tokens_of_spaced hrest, Json.tokens_nil] at hread
  rw [ofJson, decodeText_eq_check check hread]

/-- A number that does not fit is complained about, and nothing is checked. -/
theorem ofJson_overflow (hnone : Json.pair? bits elems = none)
    (h : layout.Renders bits elems text) :
    ∃ cause position, ofJson text = ⟨.error (.json (.unread cause position)), []⟩ ∧
      cause.IsOverflow := by
  have hreads := Json.reads_record h
  rw [hnone] at hreads
  obtain ⟨f, hread, hcause⟩ := hreads
  refine ⟨f.cause, .within text.toList f.left, ?_, hcause⟩
  rw [ofJson, decodeText, hread]
  rfl

end

/--
**Only the numbers count, not how they are set out.**

A number of flags and some words are written in decimal digits, as an object with its members in
either order or as a list of two, with any blanks between the lexemes. If all of the numbers fit 64
bits, there is a bitmap with just these numbers, and all of these texts have one outcome. They are
decoded as that bitmap if there are just enough words and no bit is set past the last flag, and else
they are refused with the event and the message of the mismatch, which has no position: behind the
word for the form it says the numbers, and it ends there. If one of the numbers does not fit, all of
the texts are refused for a number that is too great, and no event is left.
-/
theorem ofJson_layout (bits : Nat) (elems : List Nat) :
    ((∀ n ∈ bits :: elems, n < UInt64.size) →
      ∃ (a : Bitmap) (outcome : Logged (Except DecodeError Bitmap)),
        a.size.toNat = bits ∧ a.words.toList.map UInt64.toNat = elems ∧
        (∀ (layout : Layout) (text : String), layout.Renders bits elems text →
          ofJson text = outcome) ∧
        (elems.length = (bits + 63) / 64 → (∀ p, bits ≤ p → a.bit p = false) →
          outcome = ⟨.ok a, []⟩) ∧
        (elems.length ≠ (bits + 63) / 64 →
          outcome = ⟨.error (.json (.mismatch (.wordCount a.size ((bits + 63) / 64) elems.length))),
            [.wordCountRejected a.size elems.length]⟩) ∧
        (elems.length = (bits + 63) / 64 → (∃ p, bits ≤ p ∧ a.bit p = true) →
          outcome = ⟨.error (.json (.mismatch (.padding a.size))), [.paddingRejected a.size]⟩)) ∧
    ((∃ n ∈ bits :: elems, UInt64.size ≤ n) →
      ∀ (layout : Layout) (text : String), layout.Renders bits elems text →
        ∃ cause position, ofJson text = ⟨.error (.json (.unread cause position)), []⟩ ∧
          cause.IsOverflow) ∧
    (∀ m : Mismatch, (DecodeError.json (.mismatch m)).message = "JSON error: " ++ m.message) ∧
    (∀ (b : UInt64) (expected actual : Nat), (Mismatch.wordCount b expected actual).message =
      "Invalid word count for " ++ toString b.toNat ++ " bits: expected " ++ toString expected ++
        ", got " ++ toString actual) ∧
    (∀ b : UInt64, (Mismatch.padding b).message =
      "Padding bits set beyond bit count " ++ toString b.toNat) := by
  refine ⟨?_, ?_, fun m => rfl, Mismatch.message_wordCount, Mismatch.message_padding⟩
  · intro hfit
    obtain ⟨hbits, helems⟩ := List.forall_mem_cons.mp hfit
    obtain ⟨a, ha, hsize, hwords⟩ : ∃ a : Bitmap, Json.pair? bits elems = some a ∧
        a.size.toNat = bits ∧ a.words.toList.map UInt64.toNat = elems :=
      ⟨_, Json.pair?_of_lt hfit, UInt64.toNat_ofNat_of_lt' hbits, map_toNat_ofNat helems⟩
    have hlength : a.words.size = elems.length := by
      rw [← hwords, List.length_map, Array.length_toList]
    refine ⟨a, a.check.map (·.mapError fun m => .json (.mismatch m)), hsize, hwords, ?_, ?_, ?_, ?_⟩
    · intro layout text h
      exact ofJson_eq_check ha h
    · intro hcount hclear
      rw [check_of_wellFormed ⟨?_, ?_⟩]
      · rfl
      · rw [hlength, hcount, Word.toNat_countFor, hsize]
      · rwa [hsize]
    · intro hcount
      rw [check_of_size_ne (by rwa [hlength, hsize]), hlength, hsize]
      rfl
    · rintro hcount ⟨p, hp, hbit⟩
      rw [check_of_bit (by rwa [hlength, hsize]) (by rwa [hsize]) hbit]
      rfl
  · intro hbig layout text h
    exact ofJson_overflow (Json.pair?_of_le hbig) h

/-- Two flags in an object with blanks and in a list, and a number that is too great by one. -/
theorem ofJson_layout_two :
    ofJson "\x7b \"elems\" : [3\t],\"bits\":2\x7d\n" = ⟨.ok ⟨2, #[3]⟩, []⟩ ∧
    ofJson "[2,[3]]" = ⟨.ok ⟨2, #[3]⟩, []⟩ ∧
    (∃ cause position,
      ofJson "[64,[18446744073709551616]]" = ⟨.error (.json (.unread cause position)), []⟩ ∧
        cause.IsOverflow) := by
  have hobject :
      (Layout.object .elems).Renders 2 [3] "\x7b \"elems\" : [3\t],\"bits\":2\x7d\n" :=
    .of_gaps [[], [' '], [' '], [' '], [], ['\t'], [], [], [], [], []] ['\n'] rfl (by decide) rfl
  have hlist : Layout.list.Renders 2 [3] "[2,[3]]" :=
    .of_gaps (List.replicate 7 []) [] rfl (by decide) rfl
  have hbig : Layout.list.Renders 64 [18446744073709551616] "[64,[18446744073709551616]]" :=
    .of_gaps (List.replicate 7 []) [] rfl (by decide) rfl
  have hwf : (⟨2, #[3]⟩ : Bitmap).WellFormed := (mismatch?_eq_none_iff _).mp (by decide)
  obtain ⟨hfit, -, -⟩ := ofJson_layout 2 [3]
  obtain ⟨a, outcome, hsize, hwords, hsame, haccept, -⟩ := hfit (by decide)
  obtain rfl : a = ⟨2, #[3]⟩ := ext_toNat hsize hwords
  have haccepted : outcome = ⟨.ok ⟨2, #[3]⟩, []⟩ := haccept rfl hwf.bit_of_le
  refine ⟨?_, ?_, ?_⟩
  · rw [hsame _ _ hobject, haccepted]
  · rw [hsame _ _ hlist, haccepted]
  · obtain ⟨-, hoverflow, -⟩ := ofJson_layout 64 [18446744073709551616]
    exact hoverflow ⟨18446744073709551616, by simp, by decide⟩ _ _ hbig

end PackedBits.Bitmap
