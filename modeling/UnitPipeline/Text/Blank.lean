namespace UnitPipeline.Text

-- The characters with the Unicode property White_Space.
def isBlank (c : Char) : Bool :=
  let n := c.toNat
  (0x09 ≤ n && n ≤ 0x0d) || n = 0x20 || n = 0x85 || n = 0xa0 || n = 0x1680 ||
    (0x2000 ≤ n && n ≤ 0x200a) || n = 0x2028 || n = 0x2029 || n = 0x202f || n = 0x205f ||
    n = 0x3000

def trimStart (text : List Char) : List Char := text.dropWhile isBlank

def trimEnd : List Char → List Char
  | [] => []
  | c :: rest =>
    match trimEnd rest with
    | [] => if isBlank c then [] else [c]
    | kept => c :: kept

def trim (text : List Char) : List Char := trimEnd (trimStart text)

theorem isBlank_newline : isBlank '\n' = true := by decide

theorem trimEnd_append (text : List Char) :
    ∃ blanks, text = trimEnd text ++ blanks ∧ ∀ c ∈ blanks, isBlank c = true := by
  induction text with
  | nil => exact ⟨[], rfl, by simp⟩
  | cons c rest ih =>
    obtain ⟨blanks, parts, blank⟩ := ih
    simp only [trimEnd]
    split
    · rename_i empty
      rw [empty, List.nil_append] at parts
      subst parts
      by_cases here : isBlank c = true
      · refine ⟨c :: rest, by simp [here], ?_⟩
        intro d member
        rcases List.mem_cons.mp member with rfl | later
        · exact here
        · exact blank d later
      · exact ⟨rest, by simp [here], blank⟩
    · exact ⟨blanks, by rw [List.cons_append, ← parts], blank⟩

end UnitPipeline.Text
