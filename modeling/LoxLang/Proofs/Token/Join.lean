import LoxLang.Proofs.Program.Relabel
import LoxLang.Proofs.Token.Words

/-!
Scanning across a line feed.  Outside strings and block comments a line feed ends
every chunk, so two texts with a line feed between them are cut as each is cut by
itself, and the tokens of the second stand some lines further down.
-/

namespace LoxLang

namespace Chunk

/-- A chunk that does not run to the end of its text for want of a closing mark. -/
def IsClosed (chunk : Chunk) : Prop :=
  chunk.shape ≠ .openString ∧ chunk.shape ≠ .openComment

section Cut

variable (rest second : Bytes)

theorem takeWhile_append_lineFeed {test : UInt8 → Bool} (stops : test Bytes.lineFeed = false)
    (text : Bytes) :
    (text ++ Bytes.lineFeed :: second).takeWhile test = text.takeWhile test := by
  induction text with
  | nil => simp [stops]
  | cons byte text inductionHypothesis =>
      simp only [List.cons_append, List.takeWhile_cons, inductionHypothesis]

theorem dropWhile_append_lineFeed {test : UInt8 → Bool} (stops : test Bytes.lineFeed = false)
    (text : Bytes) :
    (text ++ Bytes.lineFeed :: second).dropWhile test =
      text.dropWhile test ++ Bytes.lineFeed :: second := by
  induction text with
  | nil => simp [stops]
  | cons byte text inductionHypothesis =>
      simp only [List.cons_append, List.dropWhile_cons, inductionHypothesis]
      split <;> rfl

theorem commentBody_append_of_closed (text extra : Bytes) {body remaining : Bytes}
    (closed : commentBody text = (body, some remaining)) :
    commentBody (text ++ extra) = (body, some (remaining ++ extra)) := by
  fun_induction commentBody text generalizing body remaining with
  | case1 => cases closed
  | case2 => cases closed
  | case3 first second rest marks =>
      cases closed
      simp only [List.cons_append, commentBody, if_pos marks]
  | case4 first second rest marks inner left found inductionHypothesis =>
      cases closed
      have further := inductionHypothesis found
      simp only [List.cons_append] at further ⊢
      simp only [commentBody, if_neg marks, further]

theorem cutSlash_append_lineFeed (closed : (cutSlash rest).1.IsClosed) :
    cutSlash (rest ++ Bytes.lineFeed :: second) =
      ((cutSlash rest).1, (cutSlash rest).2 ++ Bytes.lineFeed :: second) := by
  cases rest with
  | nil => rfl
  | cons mark after =>
      unfold cutSlash at closed ⊢
      simp only [List.cons_append] at closed ⊢
      split
      · rw [takeWhile_append_lineFeed second (by decide),
          dropWhile_append_lineFeed second (by decide)]
      · split
        · next notSlash isStar =>
            rw [if_neg notSlash, if_pos isStar] at closed
            cases found : commentBody after with
            | mk body left =>
                cases left with
                | some remaining => rw [commentBody_append_of_closed after _ found]
                | none =>
                    rw [found] at closed
                    exact absurd rfl closed.2
        · rfl

theorem while_append_of_stops {test : UInt8 → Bool} {text : Bytes}
    (stops : text.dropWhile test ≠ []) (extra : Bytes) :
    (text ++ extra).takeWhile test = text.takeWhile test ∧
      (text ++ extra).dropWhile test = text.dropWhile test ++ extra := by
  induction text with
  | nil => exact absurd rfl stops
  | cons byte text inductionHypothesis =>
      simp only [List.cons_append, List.takeWhile_cons, List.dropWhile_cons] at stops ⊢
      split at stops
      · next passes =>
          obtain ⟨taken, dropped⟩ := inductionHypothesis stops
          simp only [if_pos passes, taken, dropped, and_self]
      · next fails => simp only [if_neg fails, List.cons_append, and_self]

theorem cutString_append_of_closed (closed : (cutString rest).1.IsClosed) (extra : Bytes) :
    cutString (rest ++ extra) = ((cutString rest).1, (cutString rest).2 ++ extra) := by
  unfold cutString at closed ⊢
  dsimp only at closed ⊢
  cases found : rest.dropWhile (· != quote) with
  | nil =>
      rw [found] at closed
      exact absurd rfl closed.1
  | cons closing remaining =>
      have parts := while_append_of_stops (by rw [found]; simp) extra
      rw [parts.1, parts.2, found]
      rfl

theorem cutNumber_append_lineFeed :
    cutNumber (rest ++ Bytes.lineFeed :: second) =
      ((cutNumber rest).1, (cutNumber rest).2 ++ Bytes.lineFeed :: second) := by
  unfold cutNumber
  dsimp only
  rw [takeWhile_append_lineFeed second (by decide), dropWhile_append_lineFeed second (by decide)]
  cases rest.dropWhile Bytes.isDigit with
  | nil =>
      cases second with
      | nil => rfl
      | cons byte more => exact if_neg (by simp [Bytes.lineFeed, point])
  | cons mark after =>
      cases after with
      | nil => exact if_neg (by simp [Bytes.isDigit, Bytes.lineFeed])
      | cons digit more =>
          dsimp only [List.cons_append]
          split
          · rw [← List.cons_append, takeWhile_append_lineFeed second (by decide),
              dropWhile_append_lineFeed second (by decide)]
          · rfl

theorem cutWord_append_lineFeed :
    cutWord (rest ++ Bytes.lineFeed :: second) =
      ((cutWord rest).1, (cutWord rest).2 ++ Bytes.lineFeed :: second) := by
  unfold cutWord
  dsimp only
  rw [takeWhile_append_lineFeed second (by decide), dropWhile_append_lineFeed second (by decide)]

/-- A closed chunk is cut the same before a line feed. -/
theorem cut_append_lineFeed (first : UInt8) (closed : (cut first rest).1.IsClosed) :
    cut first (rest ++ Bytes.lineFeed :: second) =
      ((cut first rest).1, (cut first rest).2 ++ Bytes.lineFeed :: second) := by
  unfold cut at closed ⊢
  split
  · rfl
  · cases rest with
    | nil => exact if_neg (by decide)
    | cons byte after =>
        dsimp only [List.cons_append]
        split <;> rfl
  · next notSingle notPaired =>
      simp only [notSingle, notPaired] at closed
      split
      · next isSlash =>
          rw [if_pos isSlash] at closed
          exact cutSlash_append_lineFeed rest second closed
      next notSlash =>
      rw [if_neg notSlash] at closed
      split
      · rfl
      next notBlank =>
      rw [if_neg notBlank] at closed
      split
      · next isQuote =>
          rw [if_pos isQuote] at closed
          exact cutString_append_of_closed rest closed _
      next notQuote =>
      split
      · exact cutNumber_append_lineFeed (first :: rest) second
      · split
        · exact cutWord_append_lineFeed (first :: rest) second
        · rfl

end Cut

end Chunk

/-- Before a line feed a text without open chunks is cut as it is by itself. -/
theorem chunks_append_lineFeed (first second : Bytes)
    (closed : ∀ chunk ∈ chunks first, chunk.IsClosed) :
    chunks (first ++ Bytes.lineFeed :: second) =
      chunks first ++ ⟨.blank, [Bytes.lineFeed]⟩ :: chunks second := by
  fun_induction chunks first with
  | case1 => rw [List.nil_append, List.nil_append, chunks]; rfl
  | case2 byte rest inductionHypothesis =>
      have head := Chunk.cut_append_lineFeed rest second byte (closed _ List.mem_cons_self)
      have tail := inductionHypothesis fun chunk member =>
        closed chunk (List.mem_cons_of_mem _ member)
      rw [List.cons_append, chunks, head, tail]
      rfl

theorem flatMap_text_chunks (source : Bytes) : (chunks source).flatMap Chunk.text = source := by
  fun_induction chunks source with
  | case1 => rfl
  | case2 first rest inductionHypothesis =>
      rw [List.flatMap_cons, inductionHypothesis, Chunk.cut_append]

namespace Chunk

theorem withLines_append (line : Nat) (first second : List Chunk) :
    withLines line (first ++ second) =
      withLines line first ++ withLines (line + Bytes.lineFeeds (first.flatMap text)) second := by
  induction first generalizing line with
  | nil => rfl
  | cons chunk rest inductionHypothesis =>
      have total : line + Bytes.lineFeeds ((chunk :: rest).flatMap text) =
          line + chunk.text.lineFeeds + Bytes.lineFeeds (rest.flatMap text) := by
        simp only [List.flatMap_cons, Bytes.lineFeeds, List.count_append]
        omega
      rw [total]
      simp only [List.cons_append, withLines, inductionHypothesis]

theorem withLines_add (line distance : Nat) (cut : List Chunk) :
    withLines (line + distance) cut =
      (withLines line cut).map fun (last, chunk) => (last + distance, chunk) := by
  induction cut generalizing line with
  | nil => rfl
  | cons chunk rest inductionHypothesis =>
      have shifted : line + distance + chunk.text.lineFeeds =
          line + chunk.text.lineFeeds + distance := by omega
      simp only [withLines, List.map_cons, shifted, inductionHypothesis]

theorem exists_mem_withLines {line : Nat} {cut : List Chunk} {chunk : Chunk}
    (member : chunk ∈ cut) : ∃ last, (last, chunk) ∈ withLines line cut := by
  induction cut generalizing line with
  | nil => cases member
  | cons first rest inductionHypothesis =>
      rcases List.mem_cons.mp member with rfl | inRest
      · exact ⟨_, List.mem_cons_self⟩
      · obtain ⟨last, found⟩ := inductionHypothesis inRest
        exact ⟨last, List.mem_cons_of_mem _ found⟩

theorem token?_add (line distance : Nat) (chunk : Chunk) :
    chunk.token? (line + distance) =
      (chunk.token? line).map (Relabelling.moveDown distance).token := by
  unfold token?
  split <;> rfl

theorem diagnostic?_add (line distance : Nat) (chunk : Chunk) :
    chunk.diagnostic? (line + distance) =
      (chunk.diagnostic? line).map (Relabelling.moveDown distance).diagnostic := by
  unfold diagnostic?
  split <;> rfl

theorem isClosed_of_diagnostic? {line : Nat} {chunk : Chunk}
    (silent : chunk.diagnostic? line = none) : chunk.IsClosed := by
  unfold diagnostic? at silent
  constructor <;> intro shape <;> simp [shape] at silent

end Chunk

/-- The tokens of a text before the one that ends it. -/
def tokensWithin (source : Bytes) : List Token :=
  (Chunk.withLines 1 (chunks source)).filterMap fun (line, chunk) => chunk.token? line

theorem tokens_scan (source : Bytes) :
    (scan source).tokens = tokensWithin source ++ [.endOfSource (1 + source.lineFeeds)] := rfl

/-- Two texts with a line feed between them are scanned one after the other. -/
theorem scan_append_lineFeed {first : Bytes} (second : Bytes)
    (silent : (scan first).errors = []) :
    (scan (first ++ Bytes.lineFeed :: second)).tokens =
        tokensWithin first ++
          (scan second).tokens.map (Relabelling.moveDown (1 + first.lineFeeds)).token ∧
      (scan (first ++ Bytes.lineFeed :: second)).errors =
        (scan second).errors.map (Relabelling.moveDown (1 + first.lineFeeds)).diagnostic := by
  have closed : ∀ chunk ∈ chunks first, chunk.IsClosed := by
    intro chunk member
    obtain ⟨line, placed⟩ := Chunk.exists_mem_withLines member
    exact Chunk.isClosed_of_diagnostic? (List.filterMap_eq_nil_iff.mp silent (line, chunk) placed)
  have placed : Chunk.withLines 1 (chunks (first ++ Bytes.lineFeed :: second)) =
      Chunk.withLines 1 (chunks first) ++
        (1 + first.lineFeeds + 1, ⟨.blank, [Bytes.lineFeed]⟩) ::
          (Chunk.withLines 1 (chunks second)).map fun (last, chunk) =>
            (last + (1 + first.lineFeeds), chunk) := by
    rw [chunks_append_lineFeed first second closed, Chunk.withLines_append, flatMap_text_chunks,
      ← Chunk.withLines_add, Nat.add_comm 1 (1 + first.lineFeeds)]
    rfl
  have total : 1 + (first ++ Bytes.lineFeed :: second).lineFeeds =
      1 + second.lineFeeds + (1 + first.lineFeeds) := by
    simp only [Bytes.lineFeeds, List.count_append, List.count_cons_self]
    omega
  constructor
  · rw [tokens_scan, tokens_scan, total]
    simp only [tokensWithin, placed, List.filterMap_append, List.filterMap_cons,
      List.filterMap_map, List.map_append, List.map_filterMap, Function.comp_def,
      Chunk.token?_add]
    simp only [Chunk.token?, List.append_assoc]
    rfl
  · have alone : ((Chunk.withLines 1 (chunks first)).filterMap fun (line, chunk) =>
        chunk.diagnostic? line) = [] := silent
    simp only [scan, placed, List.filterMap_append, List.filterMap_cons, List.filterMap_map,
      List.map_filterMap, Function.comp_def, Chunk.diagnostic?_add, alone]
    rfl

/-- Source after so many empty lines. -/
def Bytes.moveDown (distance : Nat) (source : Bytes) : Bytes :=
  List.replicate distance Bytes.lineFeed ++ source

/-- Empty lines before a text only move its tokens and errors. -/
theorem scan_moveDown (source : Bytes) (distance : Nat) :
    (scan (source.moveDown distance)).tokens =
        (scan source).tokens.map (Relabelling.moveDown distance).token ∧
      (scan (source.moveDown distance)).errors =
        (scan source).errors.map (Relabelling.moveDown distance).diagnostic := by
  induction distance with
  | zero => exact ⟨(List.map_id _).symm, (List.map_id _).symm⟩
  | succ distance inductionHypothesis =>
      obtain ⟨tokens, errors⟩ := inductionHypothesis
      obtain ⟨tokensBelow, errorsBelow⟩ :=
        @scan_append_lineFeed [] (source.moveDown distance) (by decide +kernel)
      rw [tokens, List.map_map] at tokensBelow
      rw [errors, List.map_map] at errorsBelow
      have within : tokensWithin [] = [] := by decide +kernel
      rw [within] at tokensBelow
      exact ⟨tokensBelow, errorsBelow⟩

namespace Chunk

theorem ofWord_ne_eof (word : Bytes) : Token.Kind.ofWord word ≠ .eof := by
  have words : ∀ entry ∈ Token.Kind.reserved, entry.2 ≠ .eof := by decide
  unfold Token.Kind.ofWord
  split
  · next entry found => exact words entry (List.mem_of_find?_eq_some found)
  · decide

/-- No chunk ends the source. -/
theorem shape_cut_ne_eof (first : UInt8) (rest : Bytes) :
    (cut first rest).1.shape ≠ .token .eof := by
  unfold cut
  split
  · next kind found =>
      intro isEnd
      obtain rfl := Shape.token.inj isEnd
      unfold single? at found
      split at found <;> cases found
  · next alone joined _ found =>
      have kinds : alone ≠ .eof ∧ joined ≠ .eof := by
        unfold paired? at found
        split at found <;> cases found <;> decide
      split
      · exact fun isEnd => kinds.1 (Shape.token.inj isEnd)
      · split
        · exact fun isEnd => kinds.2 (Shape.token.inj isEnd)
        · exact fun isEnd => kinds.1 (Shape.token.inj isEnd)
  · split
    · unfold cutSlash
      repeat' split
      all_goals simp
    · split
      · simp
      · split
        · unfold cutString
          dsimp only
          split <;> simp
        · split
          · unfold cutNumber
            dsimp only
            repeat' split
            all_goals simp
          · split
            · exact fun isEnd => ofWord_ne_eof _ (Shape.token.inj isEnd)
            · simp

end Chunk

theorem kind_ne_eof_of_mem_tokensWithin {source : Bytes} :
    ∀ token ∈ tokensWithin source, token.kind ≠ .eof := by
  have shapes : ∀ chunk ∈ chunks source, chunk.shape ≠ .token .eof := by
    fun_induction chunks source with
    | case1 => simp
    | case2 first rest inductionHypothesis =>
        exact List.forall_mem_cons.mpr ⟨Chunk.shape_cut_ne_eof first rest, inductionHypothesis⟩
  intro token member isEnd
  obtain ⟨⟨line, chunk⟩, placed, found⟩ := List.mem_filterMap.mp member
  have shape := shapes chunk (Chunk.mem_of_mem_withLines placed)
  dsimp only [Chunk.token?] at found
  split at found
  · next kind same =>
      obtain rfl := Option.some.inj found
      exact shape (same.trans (congrArg Chunk.Shape.token isEnd))
  · cases found

end LoxLang
