import Graft.Proofs.BodyTexts
import Graft.Proofs.FunctionCandidates

/-! A new body for the second time. The block is printed for the indentation of the line that the old body started on
and with the line ending of the text, and both are the same after it was put in: a body starts with no blank, and a
block that has a line break has it with the line ending of the text. So if the block is read as the new body, printing
it again changes nothing. -/

namespace Graft

/-! ### Line endings -/

namespace LineEnding

/-- The line ending of a text is that of the first line feed, by the character before it. -/
theorem detect_line {line : Text} (plain : '\n' ∉ line) (rest : Text) :
    detect (line ++ '\n' :: rest) = if line.getLast? = some '\r' then crlf else lf := by
  induction line with
  | nil => rfl
  | cons c line ih =>
    obtain ⟨other, plain⟩ := not_or.mp (mt List.mem_cons.mpr plain)
    cases line with
    | nil =>
      by_cases same : c = '\r'
      · subst same
        rfl
      · simp [detect, same, Ne.symm other]
    | cons d line =>
      rw [List.getLast?_cons_cons, ← ih plain]
      obtain ⟨next, -⟩ := not_or.mp (mt List.mem_cons.mpr plain)
      simp [detect, Ne.symm other, Ne.symm next]

theorem detect_plain {text : Text} (plain : '\n' ∉ text) : detect text = lf := by
  induction text with
  | nil => rfl
  | cons c text ih =>
    obtain ⟨other, plain⟩ := not_or.mp (mt List.mem_cons.mpr plain)
    have rest := ih plain
    unfold detect
    split
    next => rfl
    next same => cases same; simp at plain
    next => rfl
    next same => cases same; exact rest

theorem detect_cases (text : Text) : detect text = lf ∨ detect text = crlf := by
  by_cases broken : '\n' ∈ text
  · obtain ⟨line, rest, rfl, plain⟩ := List.eq_append_cons_of_mem broken
    rw [detect_line plain]
    split
    · exact .inr rfl
    · exact .inl rfl
  · exact .inl (detect_plain broken)

theorem normalize_cons {c : Char} (lf : c ≠ '\n') (cr : c ≠ '\r') (ending text : Text) :
    normalize ending (c :: text) = c :: normalize ending text := by
  unfold normalize
  split
  · rfl
  · simp [Text.replaceAll, Text.replaceAll.go, LineEnding.lf, crlf, List.isPrefixOf, Ne.symm lf, Ne.symm cr]

theorem normalize_break (text : Text) : normalize crlf ('\n' :: text) = crlf ++ normalize crlf text := by
  simp [normalize, Text.replaceAll, Text.replaceAll.go, lf, crlf, List.isPrefixOf]

/-- What is before the first line feed of a text does not matter, up to the character before it. -/
theorem detect_replace {front old new back : Text} (plain : '\n' ∉ front ++ old) (other : '\n' ∉ front ++ new)
    (last : (front ++ old).getLast? ≠ some '\r') (last' : (front ++ new).getLast? ≠ some '\r') :
    detect (front ++ (new ++ back)) = detect (front ++ (old ++ back)) := by
  rw [← List.append_assoc, ← List.append_assoc]
  generalize front ++ old = one at plain last
  generalize front ++ new = two at other last'
  by_cases broken : '\n' ∈ back
  · obtain ⟨line, rest, rfl, clear⟩ := List.eq_append_cons_of_mem broken
    rw [← List.append_assoc, ← List.append_assoc, detect_line (by simp [other, clear]), detect_line (by simp [plain, clear])]
    cases line with
    | nil => rw [List.append_nil, List.append_nil, if_neg last, if_neg last']
    | cons c line => rw [List.getLast?_append_of_ne_nil _ (by simp), List.getLast?_append_of_ne_nil _ (by simp)]
  · rw [detect_plain (by simp [other, broken]), detect_plain (by simp [plain, broken])]

end LineEnding

/-! ### Blocks -/

theorem Style.block_cases (style : Style) (snippet : Snippet) (indent : Text) :
    style.block snippet indent = ['\x7b', '\x7d'] ∨ ∃ rest, style.block snippet indent = '\x7b' :: '\n' :: rest := by
  unfold block
  split
  · exact .inl rfl
  · exact .inr ⟨_, rfl⟩

theorem LineEnding.normalize_braces (ending : Text) : normalize ending ['\x7b', '\x7d'] = ['\x7b', '\x7d'] := by
  rw [normalize_cons (by decide) (by decide), normalize_cons (by decide) (by decide)]
  unfold normalize
  split <;> rfl

theorem Text.indentation_front {front rest : Text} {c : Char} (other : isIndent c = false) :
    (front ++ c :: rest).indentation = front.indentation := by
  induction front with
  | nil => simp [indentation, other]
  | cons d front ih =>
    rw [indentation, indentation] at ih
    rw [indentation, indentation, List.cons_append, List.takeWhile_cons, List.takeWhile_cons, ih]

/-- Only what is before an offset counts for the indentation of its line, if no blank is behind it. -/
theorem lineIndent_front {front rest : Text} {c : Char} (other : isIndent c = false) :
    lineIndent (front ++ c :: rest) (Text.bytes front) = front.lastLine.indentation := by
  rw [lineIndent, Text.splitAt?_append]
  exact Text.indentation_front other

/-- The first line break of a text, if any, does not begin before a body, and it begins in it. -/
def Node.BreaksIn (body : Node) (source : Text) : Prop :=
  ∃ front back, source = front ++ (body.text ++ back) ∧ Text.bytes front = body.start ∧ '\n' ∉ front ∧
    ('\n' ∈ body.text ∨ body.text.getLast? = some '\r')

namespace FunctionTarget.Rebodied
variable {target : FunctionTarget} {style : Style} {source code : Text} {snippet : Snippet}

theorem printed_head (target : FunctionTarget) (style : Style) (source : Text) (snippet : Snippet) :
    ∃ rest, target.printed style source snippet = '\x7b' :: rest := by
  unfold printed
  rcases style.block_cases snippet (lineIndent source target.body.start) with same | ⟨rest, same⟩ <;> rw [same]
  · exact ⟨_, LineEnding.normalize_braces _⟩
  · exact ⟨_, LineEnding.normalize_cons (by decide) (by decide) _ _⟩

/-- A new body stands on a line with the same indentation as the old one. -/
theorem lineIndent_eq (rebodied : target.Rebodied source (target.printed style source snippet) code)
    (firm : target.body.tree.IsFirm) : lineIndent code target.body.start = lineIndent source target.body.start := by
  obtain ⟨front, back, rfl, start, rfl⟩ := rebodied
  obtain ⟨c, rest, text, head⟩ := firm
  have solid : isIndent c = false := by
    cases indent : isIndent c with
    | false => rfl
    | true =>
      simp only [isIndent, Bool.or_eq_true, decide_eq_true_eq] at indent
      rcases indent with rfl | rfl <;> cases head
  obtain ⟨others, printed⟩ := printed_head target style (front ++ (target.body.text ++ back)) snippet
  rw [printed, ← start, Node.text, text, List.cons_append, List.cons_append, lineIndent_front solid,
    lineIndent_front (by decide)]

/-- A new body leaves the line ending of a text as it was, unless it is an empty block and the first line break began in
the old body. -/
theorem detect_eq (rebodied : target.Rebodied source (target.printed style source snippet) code)
    (firm : target.body.tree.IsFirm) : LineEnding.detect code = LineEnding.detect source ∨
      style.block snippet (lineIndent source target.body.start) = ['\x7b', '\x7d'] ∧ target.body.BreaksIn source := by
  obtain ⟨front, back, whole, start, rfl⟩ := rebodied
  have brace : (front ++ ['\x7b']).getLast? ≠ some '\r' := by simp
  by_cases broken : '\n' ∈ front
  · -- the first line break is before the body
    obtain ⟨line, rest, rfl, plain⟩ := List.eq_append_cons_of_mem broken
    left
    rw [whole, List.append_assoc, List.append_assoc, List.cons_append, List.cons_append,
      LineEnding.detect_line plain, LineEnding.detect_line plain]
  · rcases style.block_cases snippet (lineIndent source target.body.start) with same | ⟨rest, same⟩
    · by_cases within : '\n' ∈ target.body.text ∨ target.body.text.getLast? = some '\r'
      · exact .inr ⟨same, front, back, whole, start, broken, within⟩
      · left
        obtain ⟨clear, last⟩ := not_or.mp within
        obtain ⟨c, others, text, -⟩ := firm
        have filled : target.body.text ≠ [] := by
          rw [Node.text, text]
          simp
        rw [printed, same, LineEnding.normalize_braces]
        conv => rhs; rw [whole]
        refine LineEnding.detect_replace (by simp [broken, clear]) (by simp [broken]) ?_ (by simp)
        rwa [List.getLast?_append_of_ne_nil _ filled]
    · -- the first line break is behind the brace, and was written with the line ending of the text
      left
      rw [printed, same, LineEnding.normalize_cons (by decide) (by decide)]
      rcases LineEnding.detect_cases source with ending | ending <;> rw [ending]
      · rw [LineEnding.normalize, if_pos rfl, List.cons_append, List.cons_append, ← List.singleton_append, ← List.append_assoc,
          LineEnding.detect_line (by simp [broken]), if_neg brace]
      · rw [LineEnding.normalize_break]
        have split : front ++ ('\x7b' :: (LineEnding.crlf ++ LineEnding.normalize LineEnding.crlf rest) ++ back) =
            (front ++ ['\x7b', '\r']) ++ '\n' :: (LineEnding.normalize LineEnding.crlf rest ++ back) := by
          simp [LineEnding.crlf]
        rw [split, LineEnding.detect_line (by simp [broken]), if_pos (by simp)]

theorem again {other : FunctionTarget} {printed code' : Text} (first : target.Rebodied source printed code)
    (second : other.Rebodied code printed code')
    (covers : other.body.span = ⟨target.body.start, target.body.start + Text.bytes printed⟩) : code' = code := by
  obtain ⟨front, back, -, start, rfl⟩ := first
  obtain ⟨before, after, whole, here, rfl⟩ := second
  obtain ⟨same, stop⟩ := Span.mk.inj covers
  rw [Node.stop_eq, same] at stop
  obtain ⟨rfl, rest⟩ := Text.append_inj_of_bytes whole (by omega)
  obtain ⟨-, rfl⟩ := Text.append_inj_of_bytes rest (by omega)
  rfl

theorem bytes_eq {printed : Text} (rebodied : target.Rebodied source printed code) :
    Text.bytes code + Text.bytes target.body.text = Text.bytes source + Text.bytes printed := by
  obtain ⟨front, back, rfl, -, rfl⟩ := rebodied
  simp only [Text.bytes_append]
  omega

end FunctionTarget.Rebodied

/-- The first function with a name that is read in a text is of the same shape as before, and its body is just the
printed block. -/
def FunctionTarget.ReadsBack (target : FunctionTarget) (name printed code : Text) : Prop :=
  ∃ again other, Program.parse code = .ok again ∧ again.functionNamed? name = some other ∧ other.shell = target.shell ∧
    other.body.span = ⟨target.body.start, target.body.start + Text.bytes printed⟩

/-- A request for a new body that was done is done again without any change just if the new text is not too large, where
the block is read back as the body of the function. The second block is for the same indentation as the first and has the
same line ending, unless it has no line break and the first line break of the text began in the old body. -/
theorem Config.updateFunctionBody_twice (config : Config) (request : Request) {name body : Text} {outcome : Outcome}
    (asked : Operation.ofRequest request = .ok (.updateFunctionBody name body)) (done : config.edit request = .ok outcome)
    (applied : outcome.applied = true) :
    ∃ program target snippet, Program.parse request.content = .ok program ∧ program.functionNamed? name = some target ∧
      target.shell.parseBody body = .ok snippet ∧
      (target.ReadsBack name (target.printed config.style request.content snippet) outcome.code →
        lineIndent outcome.code target.body.start = lineIndent request.content target.body.start ∧
        (LineEnding.detect outcome.code = LineEnding.detect request.content ∨
          config.style.block snippet (lineIndent request.content target.body.start) = ['\x7b', '\x7d'] ∧
            target.body.BreaksIn request.content) ∧
        ((∃ second, config.edit { request with content := outcome.code } = .ok second ∧
            second.applied = true ∧ second.code = outcome.code ∧ second.edits = []) ↔
          Text.bytes outcome.code ≤ config.maxBytes)) := by
  obtain ⟨program, read, ⟨-, missed, -⟩ | ⟨target, snippet, found, parsed, -, rebodied⟩⟩ := edit_body asked done
  · cases applied.symm.trans missed
  · have firm := Program.body_firm read found
    have indent := rebodied.lineIndent_eq firm
    have ending := rebodied.detect_eq firm
    refine ⟨program, target, snippet, read, found, parsed, ?_⟩
    rintro ⟨again, other, reread, refound, shell, covers⟩
    refine ⟨indent, ending, ?_, fun small => ?_⟩
    · rintro ⟨second, repeated, -⟩
      obtain ⟨_, _, _, small, -⟩ := edit_ok.mp repeated
      exact small
    have start : other.body.start = target.body.start := congrArg Span.start covers
    have source := (Program.parse_ok reread).1
    have printed : other.printed config.style outcome.code snippet = target.printed config.style request.content snippet := by
      rw [FunctionTarget.printed, FunctionTarget.printed, start, indent]
      rcases ending with same | ⟨braces, -⟩
      · rw [same]
      · rw [braces, LineEnding.normalize_braces, LineEnding.normalize_braces]
    have ran : (Operation.updateFunctionBody name body).run config.style again = .ok _ :=
      Program.updateFunctionBody_ok.mpr (.inr ⟨other, snippet, refound, shell ▸ parsed, rfl⟩)
    have repeated : config.edit { request with content := outcome.code } = .ok _ :=
      edit_ok.mpr ⟨again, _, _, small, reread, asked, ran, rfl⟩
    have asked' : Operation.ofRequest { request with content := outcome.code } = .ok (.updateFunctionBody name body) := asked
    obtain ⟨program', reread', made⟩ := edit_body asked' repeated
    cases reread.symm.trans reread'
    rcases made with ⟨-, missed, -⟩ | ⟨other', snippet', refound', parsed', -, rebodied'⟩
    · cases missed
    · cases refound.symm.trans refound'
      rw [shell] at parsed'
      cases parsed.symm.trans parsed'
      rw [printed] at rebodied'
      have same := rebodied.again rebodied' covers
      refine ⟨_, repeated, rfl, same, ?_⟩
      rw [Outcome.ofChange]
      dsimp only
      rw [show Change.code _ again = again.source from same.trans source.symm]
      exact Diff.report_self _ _

theorem arrowRequest_readsBack {config : Config} {content body code : Text} {shell : FunctionShell} {start stop : Nat}
    (plain : config.style = {}) (small : Text.bytes content ≤ config.maxBytes) (filled : body.isEmpty = false)
    (reads : (Program.parse content).toOption.map (fun program => (program.bodyPlace?, program.withBody? body)) =
      some (some (shell, ⟨start, stop⟩), some (true, code)))
    (rereads : (Program.parse code).toOption.map Program.bodyPlace? =
      some (some (shell, ⟨start, start + (Text.bytes code + (stop - start) - Text.bytes content)⟩))) :
    ∃ outcome program target snippet, config.edit (arrowRequest content body) = .ok outcome ∧ outcome.applied = true ∧
      outcome.code = code ∧ Program.parse content = .ok program ∧ program.functionNamed? ['f'] = some target ∧
      target.shell.parseBody body = .ok snippet ∧
      target.ReadsBack ['f'] (target.printed config.style content snippet) outcome.code := by
  obtain ⟨program, found, results⟩ := Option.map_eq_some_iff.mp reads
  obtain ⟨place, made⟩ := Prod.mk.inj results
  obtain ⟨again, refound, replace⟩ := Option.map_eq_some_iff.mp rereads
  have read := Except.ok_of_toOption found
  obtain ⟨outcome, done, applied, rfl⟩ := arrowRequest_edit plain small filled read made
  obtain ⟨_, again', ⟨-, missed, -⟩ | ⟨target, snippet, named, parsed, -, rebodied⟩⟩ :=
    Config.edit_body (arrowRequest_asked filled) done
  · cases applied.symm.trans missed
  · cases read.symm.trans again'
    rw [Program.bodyPlace?, named] at place
    obtain ⟨rfl, span⟩ := Prod.mk.inj (Option.some.inj place)
    obtain ⟨other, renamed, same⟩ := Option.map_eq_some_iff.mp replace
    obtain ⟨reshell, respan⟩ := Prod.mk.inj same
    obtain ⟨rfl, rfl⟩ := Span.mk.inj span
    refine ⟨outcome, program, target, snippet, done, applied, rfl, read, named, parsed, again, other,
      Except.ok_of_toOption refound, renamed, reshell, ?_⟩
    have sizes : Text.bytes outcome.code + Text.bytes target.body.text =
        Text.bytes content + Text.bytes (target.printed config.style content snippet) := rebodied.bytes_eq
    have size : Text.bytes outcome.code + (target.body.stop - target.body.start) - Text.bytes content =
        Text.bytes (target.printed config.style content snippet) := by
      rw [target.body.stop_eq]
      omega
    rw [respan, size]

theorem Config.updateFunctionBody_twice_nested : ∃ outcome second, Config.edit {} nestedArrow = .ok outcome ∧
    outcome.applied = true ∧ outcome.code = nestedBlock ∧
    Config.edit {} { nestedArrow with content := nestedBlock } = .ok second ∧ second.applied = true ∧
    second.code = nestedBlock ∧ second.edits = [] := by
  have small : Text.bytes nestedArrow.content ≤ ({} : Config).maxBytes := by decide
  obtain ⟨outcome, program, target, snippet, done, applied, code, read, named, parsed, back⟩ :=
    arrowRequest_readsBack rfl small rfl parse_nestedArrow.1 parse_nestedArrow.2
  obtain ⟨_, _, _, read', named', parsed', repeats⟩ :=
    updateFunctionBody_twice {} nestedArrow (arrowRequest_asked rfl) done applied
  cases read.symm.trans read'
  cases named.symm.trans named'
  cases parsed.symm.trans parsed'
  obtain ⟨-, -, again⟩ := repeats back
  rw [code] at again
  obtain ⟨second, repeated, rest⟩ := again.mpr (by decide)
  exact ⟨outcome, second, done, applied, code, repeated, rest⟩

def shortArrow : Request := arrowRequest "let f=()=>0\n".toList [' ']

/-- An arrow function that has the first line break in its body, and an empty body for it. -/
def brokenArrow : Request := arrowRequest "let f=()=>(\r\n0)\n".toList [' ']

/-- What both come to. -/
def shortBlock : Text := "let f=()=>\x7b\x7d\n".toList

set_option synthInstance.maxSize 1000 in
set_option maxRecDepth 100000 in
theorem parse_shortArrow :
    (Program.parse shortArrow.content).toOption.map (fun program => (program.bodyPlace?, program.withBody? [' '])) =
      some (some (.arrow, ⟨10, 11⟩), some (true, shortBlock)) ∧
    (Program.parse brokenArrow.content).toOption.map (fun program => (program.bodyPlace?, program.withBody? [' '])) =
      some (some (.arrow, ⟨10, 15⟩), some (true, shortBlock)) ∧
    (Program.parse shortBlock).toOption.map Program.bodyPlace? = some (some (.arrow, ⟨10, 12⟩)) := by
  decide +kernel

/-- A new body may make the text too large for the request to be run again, and one without a line break may change what
the line ending is taken to be. -/
theorem Config.updateFunctionBody_twice_fails :
    (∃ outcome program target snippet,
      Operation.ofRequest shortArrow = .ok (.updateFunctionBody ['f'] [' ']) ∧
      Config.edit { maxBytes := 12 } shortArrow = .ok outcome ∧ outcome.applied = true ∧
      Program.parse shortArrow.content = .ok program ∧ program.functionNamed? ['f'] = some target ∧
      target.shell.parseBody [' '] = .ok snippet ∧
      target.ReadsBack ['f'] (target.printed {} shortArrow.content snippet) outcome.code ∧
      Config.edit { maxBytes := 12 } { shortArrow with content := outcome.code } = .error (.tooLarge 13 12)) ∧
    ∃ outcome program target snippet,
      Operation.ofRequest brokenArrow = .ok (.updateFunctionBody ['f'] [' ']) ∧
      Config.edit {} brokenArrow = .ok outcome ∧ outcome.applied = true ∧
      Program.parse brokenArrow.content = .ok program ∧ program.functionNamed? ['f'] = some target ∧
      target.shell.parseBody [' '] = .ok snippet ∧
      target.ReadsBack ['f'] (target.printed {} brokenArrow.content snippet) outcome.code ∧
      LineEnding.detect outcome.code ≠ LineEnding.detect brokenArrow.content := by
  constructor
  · have small : Text.bytes shortArrow.content ≤ ({ maxBytes := 12 } : Config).maxBytes := by decide
    obtain ⟨outcome, program, target, snippet, done, applied, code, read, named, parsed, back⟩ :=
      arrowRequest_readsBack rfl small rfl parse_shortArrow.1 parse_shortArrow.2.2
    refine ⟨outcome, program, target, snippet, arrowRequest_asked rfl, done, applied, read, named, parsed, back, ?_⟩
    rw [code]
    rfl
  · have small : Text.bytes brokenArrow.content ≤ ({} : Config).maxBytes := by decide
    obtain ⟨outcome, program, target, snippet, done, applied, code, read, named, parsed, back⟩ :=
      arrowRequest_readsBack rfl small rfl parse_shortArrow.2.1 parse_shortArrow.2.2
    refine ⟨outcome, program, target, snippet, arrowRequest_asked rfl, done, applied, read, named, parsed, back, ?_⟩
    rw [code]
    decide

end Graft
