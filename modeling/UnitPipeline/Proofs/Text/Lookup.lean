import UnitPipeline.Proofs.Text.Lines
import UnitPipeline.Text.Lookup

namespace UnitPipeline.Text

theorem continues_exact {n : Nat} (fits : n < 256) :
    continues (UInt8.ofNat n) = decide (128 ≤ n ∧ n < 192) := by
  have word : (UInt8.ofNat n).toNat = n := UInt8.toNat_ofNat_of_lt' fits
  simp only [continues, UInt8.le_iff_toNat_le, UInt8.lt_iff_toNat_lt, word, Bool.decide_and]
  rfl

theorem continues_tail (n : Nat) : continues (UInt8.ofNat (n % 64 + 128)) = true := by
  rw [continues_exact (by omega), decide_eq_true_eq]
  omega

-- The first byte of a character begins it, and all others go on with it. A newline
-- is a byte of its own, and begins no other character.
theorem encoded_exact (c : Char) : ∃ lead more, String.utf8EncodeChar c = lead :: more ∧
    continues lead = false ∧ (∀ byte ∈ more, continues byte = true) ∧
      (lead = 0x0A ↔ c = '\n') := by
  have number : c = '\n' ↔ c.val.toNat = 10 := by
    rw [← Char.val_inj, ← UInt32.toNat_inj]
    rfl
  have byte {n : Nat} (fits : n < 256) : UInt8.ofNat n = 0x0A ↔ n = 10 := by
    rw [← UInt8.toNat_inj, UInt8.toNat_ofNat_of_lt' fits]
    rfl
  have begins {n : Nat} (fits : n < 256) (outside : ¬(128 ≤ n ∧ n < 192)) :
      continues (UInt8.ofNat n) = false := by
    rw [continues_exact fits, decide_eq_false_iff_not]
    exact outside
  simp only [String.utf8EncodeChar, number]
  split
  · refine ⟨_, [], rfl, begins (by omega) (by omega), nofun, ?_⟩
    rw [byte (by omega)]
  split
  · refine ⟨_, _, rfl, begins (by omega) (by omega), ?_, ?_⟩
    · simp only [List.forall_mem_cons, continues_tail]
      simp
    · rw [byte (by omega)]
      omega
  split
  · refine ⟨_, _, rfl, begins (by omega) (by omega), ?_, ?_⟩
    · simp only [List.forall_mem_cons, continues_tail]
      simp
    · rw [byte (by omega)]
      omega
  · refine ⟨_, _, rfl, begins (by omega) (by omega), ?_, ?_⟩
    · simp only [List.forall_mem_cons, continues_tail]
      simp
    · rw [byte (by omega)]
      omega

theorem bytes_cons (c : Char) (rest : List Char) :
    bytes (c :: rest) = String.utf8EncodeChar c ++ bytes rest := rfl

theorem bytes_append (left right : List Char) :
    bytes (left ++ right) = bytes left ++ bytes right := List.flatMap_append

theorem length_bytes (text : List Char) : (bytes text).length = size text := by
  induction text with
  | nil => rfl
  | cons c rest ih =>
    rw [bytes_cons, List.length_append, String.length_utf8EncodeChar, ih, size]

theorem take_bytes (left right : List Char) :
    (bytes (left ++ right)).take (size left) = bytes left := by
  rw [bytes_append, ← length_bytes, List.take_left]

theorem count_newline (text : List Char) : (bytes text).count 0x0A = text.count '\n' := by
  induction text with
  | nil => rfl
  | cons c rest ih =>
    obtain ⟨lead, more, encoded, _, goOn, newline⟩ := encoded_exact c
    have others : more.count 0x0A = 0 := by
      refine List.count_eq_zero.mpr fun inside => ?_
      have := goOn _ inside
      contradiction
    rw [bytes_cons, encoded, List.count_append, ih, List.count_cons, others]
    by_cases here : c = '\n'
    · simp [here, newline.mpr here, Nat.add_comm]
    · simp [here, mt newline.mp here]

theorem isBoundary_later {encoded : List UInt8} (first : ∀ byte ∈ encoded.head?, continues byte = false)
    (offset : Nat) : isBoundary encoded offset = match encoded[offset]? with
      | some byte => !continues byte
      | none => decide (offset = encoded.length) := by
  cases offset with
  | succ n => rfl
  | zero =>
    cases encoded with
    | nil => rfl
    | cons byte rest => simp [isBoundary, first byte rfl]

theorem head_bytes (text : List Char) : ∀ byte ∈ (bytes text).head?, continues byte = false := by
  cases text with
  | nil => nofun
  | cons c rest =>
    obtain ⟨lead, more, encoded, begins, _, _⟩ := encoded_exact c
    intro byte here
    rw [bytes_cons, encoded] at here
    cases here
    exact begins

theorem isBoundary_exact (offset : Nat) (text : List Char) : isBoundary (bytes text) offset = true ↔
    ∃ left right, text = left ++ right ∧ size left = offset := by
  induction text generalizing offset with
  | nil =>
    constructor
    · intro boundary
      refine ⟨[], [], rfl, ?_⟩
      simpa [isBoundary, bytes, size, eq_comm] using boundary
    · rintro ⟨left, right, parts, width⟩
      obtain ⟨rfl, rfl⟩ := List.append_eq_nil_iff.mp parts.symm
      cases width
      rfl
  | cons c rest ih =>
    obtain ⟨lead, more, encoded, begins, goOn, _⟩ := encoded_exact c
    have width : more.length + 1 = c.utf8Size := by
      rw [← String.length_utf8EncodeChar, encoded, List.length_cons]
    by_cases inside : offset < c.utf8Size
    · cases offset with
      | zero => exact iff_of_true rfl ⟨[], c :: rest, rfl, rfl⟩
      | succ n =>
        -- Inside the first character only the offset zero is a boundary.
        have within : n < more.length := by omega
        have byte : (bytes (c :: rest))[n + 1]? = some more[n] := by
          rw [bytes_cons, encoded, List.cons_append, List.getElem?_cons_succ,
            List.getElem?_append_left within, List.getElem?_eq_getElem within]
        refine iff_of_false ?_ ?_
        · rw [isBoundary_later (head_bytes _), byte]
          simp [goOn _ (List.getElem_mem within)]
        · rintro ⟨left, right, parts, fits⟩
          cases left with
          | nil => cases fits
          | cons d others =>
            cases parts
            rw [size] at fits
            omega
    · have later : isBoundary (bytes (c :: rest)) offset =
          isBoundary (bytes rest) (offset - c.utf8Size) := by
        rw [isBoundary_later (head_bytes _), isBoundary_later (head_bytes _), bytes_cons,
          List.getElem?_append_right (by rw [String.length_utf8EncodeChar]; omega),
          List.length_append, String.length_utf8EncodeChar]
        cases (bytes rest)[offset - c.utf8Size]? with
        | some byte => rfl
        | none =>
          simp only [decide_eq_decide]
          omega
      rw [later, ih]
      constructor
      · rintro ⟨left, right, rfl, fits⟩
        refine ⟨c :: left, right, rfl, ?_⟩
        rw [size]
        omega
      · rintro ⟨left, right, parts, fits⟩
        cases left with
        | nil =>
          have := utf8Size_pos c
          rw [size] at fits
          omega
        | cons d others =>
          cases parts
          rw [size] at fits
          exact ⟨others, right, rfl, by omega⟩

theorem backOff_exact (encoded : List UInt8) (offset : Nat) : ∃ boundary,
    backOff encoded offset = some boundary ∧ isBoundary encoded boundary = true ∧
      boundary ≤ offset ∧
      ∀ other, isBoundary encoded other = true → other ≤ offset → other ≤ boundary := by
  induction offset with
  | zero => exact ⟨0, rfl, rfl, Nat.le_refl 0, fun _ _ within => within⟩
  | succ n ih =>
    by_cases here : isBoundary encoded (n + 1) = true
    · exact ⟨n + 1, if_pos here, here, Nat.le_refl _, fun _ _ within => within⟩
    · obtain ⟨boundary, found, is, within, greatest⟩ := ih
      refine ⟨boundary, (if_neg here).trans found, is, Nat.le_succ_of_le within, ?_⟩
      intro other lies below
      have apart : other ≠ n + 1 := fun same => here (same ▸ lies)
      exact greatest other lies (by omega)

theorem backOff_floor (offset : Nat) (text : List Char) :
    backOff (bytes text) (min offset (bytes text).length) = some (floor offset text) := by
  obtain ⟨boundary, found, lies, within, greatest⟩ :=
    backOff_exact (bytes text) (min offset (bytes text).length)
  obtain ⟨left, right, rfl, width⟩ := (isBoundary_exact _ _).mp lies
  have below := floor_le offset (left ++ right)
  have inside := floor_le_size offset (left ++ right)
  have rests := greatest _ ((isBoundary_exact _ _).mpr (floor_boundary offset (left ++ right)))
    (by rw [length_bytes]; omega)
  have reaches : size left ≤ floor offset (left ++ right) := le_floor left right (by omega)
  rw [found]
  exact congrArg some (by omega)

-- What a search comes to: a place of the key, or the place in front of which all entries
-- are less than the key and from which on all are greater.
def Sought (table : Array Nat) (key : Nat) : Except Nat Nat → Prop
  | .ok found => ∃ inside : found < table.size, table[found] = key
  | .error insert => insert ≤ table.size ∧
      (∀ i (inside : i < table.size), i < insert → table[i] < key) ∧
      ∀ i (inside : i < table.size), insert ≤ i → key < table[i]

-- The range of a search has only lesser entries in front of it, and greater ones behind.
theorem search_range {table : Array Nat} (sorted : table.toList.Pairwise (· < ·))
    (key low high : Nat) (within : high ≤ table.size) (ordered : low ≤ high)
    (lower : ∀ i (inside : i < table.size), i < low → table[i] < key)
    (upper : ∀ i (inside : i < table.size), high ≤ i → key < table[i]) :
    Sought table key (search table key low high within) := by
  have apart {i j : Nat} (first : i < table.size) (second : j < table.size) (before : i < j) :
      table[i] < table[j] := List.pairwise_iff_getElem.mp sorted i j first second before
  fun_induction search table key low high within with
  | case1 low high within filled middle inside found => exact ⟨inside, found⟩
  | case2 low high within filled middle inside other less ih =>
    refine ih (by omega) ?_ upper
    intro i here before
    rcases Nat.lt_or_eq_of_le (Nat.le_of_lt_succ before) with earlier | rfl
    · exact Nat.lt_trans (apart here inside earlier) less
    · exact less
  | case3 low high within filled middle inside other more ih =>
    refine ih (by omega) lower ?_
    intro i here behind
    have greater : key < table[middle] := by omega
    rcases Nat.lt_or_eq_of_le behind with later | rfl
    · exact Nat.lt_trans greater (apart inside here later)
    · exact greater
  | case4 low high within empty => exact ⟨by omega, lower, fun i inside behind => upper i inside (by omega)⟩

theorem search_exact {table : Array Nat} (sorted : table.toList.Pairwise (· < ·)) (key : Nat) :
    Sought table key (search table key 0 table.size (Nat.le_refl _)) :=
  search_range sorted key 0 _ (Nat.le_refl _) (Nat.zero_le _) nofun
    fun _ inside behind => absurd inside (Nat.not_lt.mpr behind)

theorem startsAfter_sorted (offset : Nat) (text : List Char) :
    (startsAfter offset text).Pairwise (· < ·) := by
  induction text generalizing offset with
  | nil => exact .nil
  | cons c rest ih =>
    simp only [startsAfter]
    split
    · exact .cons (fun start later => (startsAfter_bounds later).1) (ih _)
    · exact ih _

theorem lineStarts_sorted (text : List Char) : (lineStarts text).Pairwise (· < ·) :=
  .cons (fun _ later => (startsAfter_bounds later).1) (startsAfter_sorted 0 text)

theorem lineAt?_exact {earlier later : List Nat} {start offset : Nat}
    (sorted : (earlier ++ start :: later).Pairwise (· < ·)) (started : start ≤ offset)
    (others : ∀ next ∈ later, offset < next) :
    lineAt? (earlier ++ start :: later).toArray offset = some earlier.length := by
  have first (i : Nat) (inside : i < (earlier ++ start :: later).toArray.size) :
      (earlier ++ start :: later).toArray[i] ≤ offset ↔ i ≤ earlier.length := by
    rw [List.getElem_toArray]
    rcases Nat.lt_trichotomy i earlier.length with before | rfl | behind
    · rw [List.getElem_append_left before]
      have less := (List.pairwise_append.mp sorted).2.2 _ (List.getElem_mem before) start
        List.mem_cons_self
      omega
    · simp [started]
    · have next : (earlier ++ start :: later)[i] ∈ later := by
        obtain ⟨n, rfl⟩ := Nat.exists_eq_add_of_lt behind
        rw [List.getElem_append_right (by omega)]
        simp [Nat.add_assoc]
      have more := others _ next
      omega
  have filled : earlier.length < (earlier ++ start :: later).toArray.size := by simp
  have here := (first _ filled).mpr (Nat.le_refl _)
  have answer := search_exact sorted offset
  unfold lineAt?
  cases found : search (earlier ++ start :: later).toArray offset 0 _ (Nat.le_refl _) with
  | ok line =>
    rw [found] at answer
    obtain ⟨inside, same⟩ := answer
    have low := (first line inside).mp (Nat.le_of_eq same)
    have high : ¬line < earlier.length := by
      intro before
      have less := List.pairwise_iff_getElem.mp sorted line earlier.length inside filled before
      rw [List.getElem_toArray] at same here
      omega
    exact congrArg some (by omega)
  | error insert =>
    rw [found] at answer
    obtain ⟨bounded, lower, upper⟩ := answer
    -- The place to put it in is right behind the start of the line, so not the first.
    have above : ¬insert ≤ earlier.length := fun behind =>
      Nat.not_le.mpr (upper _ filled behind) here
    have below : insert ≤ earlier.length + 1 := by
      apply Nat.le_of_not_lt
      intro past
      have inside := Nat.lt_of_lt_of_le past bounded
      have next := (first _ inside).mp (Nat.le_of_lt (lower _ inside past))
      omega
    have last : insert = earlier.length + 1 := by omega
    rw [last]

theorem search_not_first (text : List Char) (offset : Nat) :
    search (lineStarts text).toArray offset 0 _ (Nat.le_refl _) ≠ .error 0 := by
  intro first
  have sorted : (lineStarts text).toArray.toList.Pairwise (· < ·) := lineStarts_sorted text
  have answer := search_exact sorted offset
  rw [first] at answer
  have start : offset < 0 := answer.2.2 0 (by simp [lineStarts]) (Nat.le_refl 0)
  exact Nat.not_lt_zero _ start

theorem slice?_exact (before inside after : List Char) :
    slice? (size before) (size (before ++ inside)) (before ++ (inside ++ after)) = some inside := by
  have first := splitAt?_exact.mpr (⟨rfl, rfl⟩ : before ++ (inside ++ after) = _ ∧ _)
  have second := splitAt?_exact.mpr (⟨rfl, rfl⟩ : inside ++ after = _ ∧ _)
  have wide : size before ≤ size (before ++ inside) := by
    rw [size_append]
    exact Nat.le_add_right ..
  have rest : size (before ++ inside) - size before = size inside := by
    rw [size_append, Nat.add_sub_cancel_left]
  rw [slice?, if_pos wide, first, Option.bind_some, rest, second, Option.map_some]

theorem startsAfter_none {text : List Char} (whole : '\n' ∉ text) (offset : Nat) :
    startsAfter offset text = [] := by
  rw [← List.length_eq_zero_iff, startsAfter_length, List.count_eq_zero.mpr whole]

theorem lookUp_exact {head tail : List Char} (ends : EndsLine head) (whole : '\n' ∉ tail)
    (right : List Char) (resolves : floor offset (head ++ (tail ++ right)) = size (head ++ tail)) :
    lookUp offset (head ++ (tail ++ right)) =
      some (size (head ++ tail), head.count '\n' + 1, tail.length + 1) := by
  obtain ⟨earlier, starts, counted⟩ := lineStarts_ends ends
  have table : lineStarts (head ++ (tail ++ right)) =
      earlier ++ size head :: startsAfter (size (head ++ tail)) right := by
    rw [size_append, lineStarts, startsAfter_append, startsAfter_append, startsAfter_none whole,
      List.nil_append, Nat.zero_add, ← List.cons_append, ← lineStarts, starts, List.append_assoc]
    rfl
  have sorted := lineStarts_sorted (head ++ (tail ++ right))
  rw [table] at sorted
  have line := lineAt?_exact sorted (by rw [size_append]; exact Nat.le_add_right ..)
    fun next later => (startsAfter_bounds later).1
  have start : (earlier ++ size head :: startsAfter (size (head ++ tail)) right).toArray[
      earlier.length]? = some (size head) := by simp
  simp only [lookUp, backOff_floor, resolves, table, line, Option.bind_some, start, slice?_exact,
    Option.map_some]
  rw [counted]

def lastLine (text : List Char) : List Char := (text.reverse.takeWhile (· ≠ '\n')).reverse

theorem lastLine_whole (text : List Char) : '\n' ∉ lastLine text := by
  intro inside
  have other := List.mem_takeWhile_imp (List.mem_reverse.mp inside)
  simp at other

theorem lastLine_parts (text : List Char) : ∃ head, text = head ++ lastLine text ∧
    EndsLine head ∧ text.count '\n' = head.count '\n' := by
  have parts : text = (text.reverse.dropWhile (· ≠ '\n')).reverse ++ lastLine text := by
    rw [lastLine, ← List.reverse_append, List.takeWhile_append_dropWhile, List.reverse_reverse]
  refine ⟨_, parts, ?_, ?_⟩
  · cases cut : text.reverse.dropWhile (· ≠ '\n') with
    | nil => exact Or.inl rfl
    | cons c rest =>
      have filled : text.reverse.dropWhile (· ≠ '\n') ≠ [] := cut ▸ List.cons_ne_nil c rest
      have newline := List.head_dropWhile_not _ filled
      simp only [cut, List.head_cons, decide_eq_false_iff_not, not_not] at newline
      exact Or.inr ⟨rest.reverse, by rw [newline, List.reverse_cons]⟩
  · have counted := congrArg (List.count '\n') parts
    rwa [List.count_append, List.count_eq_zero.mpr (lastLine_whole text), Nat.add_zero] at counted

theorem lookUp_parts (offset : Nat) (text : List Char) : ∃ left right, text = left ++ right ∧
    size left = floor offset text ∧
      lookUp offset text = some (size left, left.count '\n' + 1, (lastLine left).length + 1) := by
  obtain ⟨left, right, parts, width⟩ := floor_boundary offset text
  obtain ⟨head, line, ends, counted⟩ := lastLine_parts left
  refine ⟨left, right, parts, width, ?_⟩
  have cut : text = head ++ (lastLine left ++ right) := by
    rw [← List.append_assoc, ← line, parts]
  have found := lookUp_exact ends (lastLine_whole left) right (by rw [← cut, ← line, width])
  rwa [← cut, ← line, ← counted] at found

theorem lookUp_start {before : List Char} (ends : EndsLine before) (rest : List Char) :
    lookUp (size before) (before ++ rest) = some (size before, before.count '\n' + 1, 1) := by
  have resolves : floor (size before) (before ++ rest) = size before :=
    Nat.le_antisymm (floor_le _ _) (le_floor before rest (Nat.le_refl _))
  have found := lookUp_exact ends (List.not_mem_nil : '\n' ∉ []) rest (by simpa using resolves)
  simpa using found

end UnitPipeline.Text
