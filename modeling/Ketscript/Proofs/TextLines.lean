import Ketscript.Console.Input
import Ketscript.Proofs.Fields
import Ketscript.Text.Blank
import Mathlib.Data.List.Basic
import Mathlib.Data.List.TakeWhile

/-! The lines of a text and of its bytes. A line feed is one byte, and no other character has that byte in it. So
    a text has the same lines, white space around them left out, whether it is cut into lines as a script or
    decoded line by line from its bytes: they are its whole lines, each with the line feed that ends it. Whole
    lines that are joined are the whole lines of their join, also after some of them were left out. -/

namespace Ketscript

namespace Text

/-! ### White space at the end -/

theorem trimChars_append_of_blank {blank : Char} (h : isBlank blank = true) (line : List Char) :
    trimChars (line ++ [blank]) = trimChars line := by
  unfold trimChars
  rw [List.dropWhile_append]
  split
  · rename_i hempty
    rw [List.isEmpty_iff.mp hempty, List.dropWhile_cons_of_pos h, List.dropWhile_nil]
  · rw [List.reverse_append, List.reverse_singleton, List.singleton_append, List.dropWhile_cons_of_pos h]

theorem trimChars_dropReturn (line : List Char) : trimChars (dropReturn line) = trimChars line := by
  unfold dropReturn
  split
  · rename_i hreturn
    obtain ⟨rest, rfl⟩ := List.getLast?_eq_some_iff.mp hreturn
    rw [List.dropLast_concat, trimChars_append_of_blank rfl rest]
  · rfl

theorem trimChars_append_feed (line : List Char) : trimChars (line ++ ['\n']) = trimChars line :=
  trimChars_append_of_blank rfl line

/-! ### Whole lines -/

/-- One character more at the front of the first line, or a line of its own if it is a line feed. -/
def consLine (c : Char) (lines : List (List Char)) : List (List Char) :=
  if c = '\n' then [c] :: lines
  else match lines with
    | [] => [[c]]
    | line :: rest => (c :: line) :: rest

/-- The lines of a text, each with the line feed that ends it. -/
def wholeLineChars (cs : List Char) : List (List Char) := cs.foldr consLine []

/-- The whole lines of a text, as texts. -/
def wholeLines (s : String) : List String := (wholeLineChars s.toList).map String.ofList

/-- Every line ends with its only line feed, but for the last one, which may have none. -/
inductive Lined : List (List Char) → Prop
  | nil : Lined []
  | last {line : List Char} (hne : line ≠ []) (hline : '\n' ∉ line) : Lined [line]
  | cons {line : List Char} {rest : List (List Char)} (hline : '\n' ∉ line) (tail : Lined rest) :
      Lined ((line ++ ['\n']) :: rest)

theorem flatten_consLine (c : Char) (lines : List (List Char)) : (consLine c lines).flatten = c :: lines.flatten := by
  unfold consLine
  split
  · rfl
  · cases lines <;> rfl

theorem flatten_wholeLineChars (cs : List Char) : (wholeLineChars cs).flatten = cs := by
  induction cs with
  | nil => rfl
  | cons c cs ih => rw [wholeLineChars, List.foldr_cons, flatten_consLine, ← wholeLineChars, ih]

theorem Lined.consLine {lines : List (List Char)} (h : Lined lines) (c : Char) : Lined (consLine c lines) := by
  unfold Text.consLine
  split
  · rename_i hc
    have hfeed : Lined (([] ++ ['\n']) :: lines) := .cons List.not_mem_nil h
    exact hc ▸ hfeed
  · rename_i hc
    have hmem {line : List Char} (hline : '\n' ∉ line) : '\n' ∉ c :: line :=
      List.not_mem_cons_of_ne_of_not_mem (Ne.symm hc) hline
    cases h with
    | nil => exact .last (List.cons_ne_nil _ _) (hmem List.not_mem_nil)
    | last hne hline => exact .last (List.cons_ne_nil _ _) (hmem hline)
    | cons hline tail => exact .cons (hmem hline) tail

theorem lined_wholeLineChars (cs : List Char) : Lined (wholeLineChars cs) := by
  induction cs with
  | nil => exact .nil
  | cons c cs ih => exact ih.consLine c

theorem Lined.sublist {lines kept : List (List Char)} (h : Lined lines) (hkept : kept.Sublist lines) :
    Lined kept := by
  induction h generalizing kept with
  | nil => exact List.sublist_nil.mp hkept ▸ .nil
  | last hne hline =>
    rcases List.sublist_singleton.mp hkept with rfl | rfl
    · exact .nil
    · exact .last hne hline
  | cons hline _ ih =>
    cases hkept with
    | cons _ hkept => exact ih hkept
    | cons_cons _ hkept => exact .cons hline (ih hkept)

/-! ### The lines of a script -/

theorem lineChars_append_feed {line : List Char} (h : '\n' ∉ line) (cs : List Char) :
    lineChars (line ++ '\n' :: cs) = dropReturn line :: lineChars cs := by
  have hne : cs.splitOn '\n' ≠ [] := List.splitOn_ne_nil '\n' cs
  unfold lineChars
  simp only [splitChars_eq_splitOn, List.splitOn_append_cons_self_of_not_mem h,
    List.dropLast_cons_of_ne_nil hne, List.getLast?_cons_of_ne_nil hne]
  rfl

theorem lineChars_of_not_mem {line : List Char} (hne : line ≠ []) (h : '\n' ∉ line) : lineChars line = [line] := by
  simp [lineChars, splitChars_eq_splitOn, List.splitOn_eq_singleton h, hne]

theorem Lined.map_trimChars_lineChars {lines : List (List Char)} (h : Lined lines) :
    (lineChars lines.flatten).map trimChars = lines.map trimChars := by
  induction h with
  | nil => rfl
  | last hne hline => rw [List.flatten_singleton, lineChars_of_not_mem hne hline]
  | @cons line rest hline _ ih =>
    rw [List.flatten_cons, List.append_assoc, List.singleton_append, lineChars_append_feed hline, List.map_cons,
      List.map_cons, ih, trimChars_dropReturn, trimChars_append_feed]

theorem join_wholeLines (s : String) : String.join (wholeLines s) = s := by
  apply String.toList_injective
  simp [wholeLines, List.flatMap_map, flatten_wholeLineChars]

/-- Whole lines of a text that are joined are the lines of their join, white space around them left out. -/
theorem map_trim_lines_join {s : String} {kept : List String} (h : kept.Sublist (wholeLines s)) :
    (Text.lines (String.join kept)).map trim = kept.map trim := by
  obtain ⟨keptChars, hkept, rfl⟩ := List.sublist_map_iff.mp h
  have hlined := (lined_wholeLineChars s.toList).sublist hkept
  have hjoin : (String.join (keptChars.map String.ofList)).toList = keptChars.flatten := by
    simp [List.flatMap_map]
  have htrim := congrArg (List.map String.ofList) hlined.map_trimChars_lineChars
  simpa [Text.lines, trim, hjoin, List.map_map, Function.comp_def] using htrim

theorem map_trim_lines (s : String) : (Text.lines s).map trim = (wholeLines s).map trim := by
  have h := map_trim_lines_join (List.Sublist.refl (wholeLines s))
  rwa [join_wholeLines] at h

theorem exists_mem_lines {s line : String} (h : line ∈ wholeLines s) : ∃ cut ∈ Text.lines s, trim cut = trim line := by
  have hmem : trim line ∈ (Text.lines s).map trim := map_trim_lines s ▸ List.mem_map_of_mem h
  exact List.mem_map.mp hmem

end Text

/-! ### The lines of bytes -/

theorem foldr_consByte (bytes : List UInt8) : bytes.foldr consByte [[]] = bytes.splitOn 10 :=
  Text.foldr_eq_splitOn (fun b piece rest => by by_cases hb : b = 10 <;> simp [consByte, hb]) bytes

theorem byteLines_append_feed {line : List UInt8} (h : 10 ∉ line) (bytes : List UInt8) :
    byteLines (line ++ 10 :: bytes) = line :: byteLines bytes := by
  have hne : bytes.splitOn 10 ≠ [] := List.splitOn_ne_nil 10 bytes
  unfold byteLines
  simp only [foldr_consByte, List.splitOn_append_cons_self_of_not_mem h, List.dropLast_cons_of_ne_nil hne,
    List.getLast?_cons_of_ne_nil hne]
  split <;> rfl

theorem byteLines_of_not_mem {line : List UInt8} (hne : line ≠ []) (h : 10 ∉ line) : byteLines line = [line] := by
  simp [byteLines, foldr_consByte, List.splitOn_eq_singleton h, hne]

/-- The bytes of characters. -/
def encodeChars (cs : List Char) : List UInt8 := cs.flatMap String.utf8EncodeChar

theorem feed_not_mem_utf8EncodeChar {c : Char} (h : c ≠ '\n') : 10 ∉ String.utf8EncodeChar c := by
  have hbyte {n : Nat} (hn : 10 = UInt8.ofNat n) : n % 256 = 10 := by
    simpa using (congrArg UInt8.toNat hn).symm
  intro hmem
  unfold String.utf8EncodeChar at hmem
  simp only at hmem
  split at hmem
  · -- A character of one byte is that byte.
    have hval := hbyte (List.mem_singleton.mp hmem)
    refine h (Char.ext (UInt32.toNat_inj.mp ?_))
    have hfeed : '\n'.val.toNat = 10 := rfl
    omega
  · -- The bytes of other characters have their highest bit set.
    split at hmem
    · simp only [List.mem_cons, List.not_mem_nil, or_false] at hmem
      rcases hmem with hmem | hmem <;> have := hbyte hmem <;> omega
    · split at hmem
      · simp only [List.mem_cons, List.not_mem_nil, or_false] at hmem
        rcases hmem with hmem | hmem | hmem <;> have := hbyte hmem <;> omega
      · simp only [List.mem_cons, List.not_mem_nil, or_false] at hmem
        rcases hmem with hmem | hmem | hmem | hmem <;> have := hbyte hmem <;> omega

theorem feed_not_mem_encodeChars {line : List Char} (h : '\n' ∉ line) : 10 ∉ encodeChars line := by
  intro hmem
  obtain ⟨c, hc, hbyte⟩ := List.mem_flatMap.mp hmem
  exact feed_not_mem_utf8EncodeChar (fun heq => h (heq ▸ hc)) hbyte

theorem encodeChars_ne_nil {line : List Char} (h : line ≠ []) : encodeChars line ≠ [] := by
  obtain ⟨c, rest, rfl⟩ := List.exists_cons_of_ne_nil h
  rw [encodeChars, List.flatMap_cons]
  exact List.append_ne_nil_of_left_ne_nil String.utf8EncodeChar_ne_nil _

theorem data_toUTF8 (cs : List Char) : (String.ofList cs).toUTF8.data.toList = encodeChars cs := by
  show (String.ofList cs).toByteArray.data.toList = encodeChars cs
  rw [String.toByteArray_ofList]
  exact List.toList_data_toByteArray

theorem decodeText_encodeChars (cs : List Char) : decodeText (encodeChars cs) = .ok (String.ofList cs) := by
  have hbytes : (⟨(encodeChars cs).toArray⟩ : ByteArray) = (String.ofList cs).toByteArray := by
    apply ByteArray.ext
    rw [← data_toUTF8, Array.toArray_toList]
    rfl
  have hread : String.fromUTF8? (String.ofList cs).toByteArray = some (String.ofList cs) :=
    dif_pos (String.ofList cs).isValidUTF8
  unfold decodeText
  rw [hbytes, hread]

theorem Text.Lined.map_trim_byteLines {lines : List (List Char)} (h : Lined lines) :
    (byteLines (encodeChars lines.flatten)).map (fun line => (decodeText line).map Text.trim) =
      lines.map fun line => .ok (String.ofList (trimChars line)) := by
  have htrim (line : List Char) : (decodeText (encodeChars line)).map Text.trim =
      .ok (String.ofList (trimChars line)) := by
    rw [decodeText_encodeChars]
    simp [Except.map, Text.trim]
  induction h with
  | nil => rfl
  | @last line hne hline =>
    rw [List.flatten_singleton, byteLines_of_not_mem (encodeChars_ne_nil hne) (feed_not_mem_encodeChars hline)]
    simp [htrim]
  | @cons line rest hline _ ih =>
    have hfeed : encodeChars ((line ++ ['\n']) :: rest).flatten = encodeChars line ++ 10 :: encodeChars rest.flatten := by
      simp [encodeChars]
      rfl
    rw [hfeed, byteLines_append_feed (feed_not_mem_encodeChars hline), List.map_cons, List.map_cons, ih, htrim,
      trimChars_append_feed]

/-- The lines of the bytes of a text are its whole lines, white space around them left out. -/
theorem map_trim_inputLines (s : String) :
    (inputLines s.toUTF8).map (Except.map Text.trim) = ((Text.wholeLines s).map .ok).map (Except.map Text.trim) := by
  have hbytes : s.toUTF8.data.toList = encodeChars (Text.wholeLineChars s.toList).flatten := by
    rw [Text.flatten_wholeLineChars, ← data_toUTF8, String.ofList_toList]
  have hlined := (Text.lined_wholeLineChars s.toList).map_trim_byteLines
  unfold inputLines Text.wholeLines
  rw [hbytes, List.map_map, List.map_map, List.map_map]
  simpa [Function.comp_def, Text.trim, Except.map] using hlined

theorem exists_wholeLines_getElem? {s line : String} {n : Nat} (h : (inputLines s.toUTF8)[n]? = some (.ok line)) :
    ∃ whole, (Text.wholeLines s)[n]? = some whole ∧ Text.trim whole = Text.trim line := by
  have hget := congrArg (·[n]?) (map_trim_inputLines s)
  simp only [List.getElem?_map, h, Option.map_some, Except.map] at hget
  obtain ⟨_, hinput, htrim⟩ := Option.map_eq_some_iff.mp hget.symm
  obtain ⟨whole, hwhole, rfl⟩ := Option.map_eq_some_iff.mp hinput
  exact ⟨whole, hwhole, Except.ok.inj htrim⟩

end Ketscript
