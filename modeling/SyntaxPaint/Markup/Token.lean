import SyntaxPaint.Text.Bytes

/-!
The tokens of markup: opening tags with a class list, closing tags, and text. Every character that
starts neither kind of tag is text, so only an opening tag without an end is malformed. In what is
written, the characters that cannot stand for themselves become references.
-/
namespace SyntaxPaint.Markup

/-- A token. Text is cut at tags and around each `<` that starts none. -/
inductive Token where
  | opening (classes : Text)
  | closing
  | text (content : Text)
  deriving DecidableEq, Repr

def openingStart : Text := "<span class=\"".toList

def openingEnd : Text := "\">".toList

def closingTag : Text := "</span>".toList

def textToken (t : Text) : List Token := if t.isEmpty then [] else [.text t]

theorem length_dropWhile_le (p : Char → Bool) (t : Text) : (t.dropWhile p).length ≤ t.length := by
  have := congrArg List.length (List.takeWhile_append_dropWhile (p := p) (l := t))
  simp only [List.length_append] at this
  omega

/-- The tokens of markup that stands behind `offset` bytes of UTF-8, or the offset of the opening
tag that does not end. -/
def tokens (offset : Nat) (t : Text) : Except Nat (List Token) :=
  let plain := t.takeWhile (· != '<')
  match _h : t.dropWhile (· != '<') with
  | [] => .ok (textToken plain)
  | c :: t' =>
    let here := offset + Text.utf8Length plain
    if openingStart.isPrefixOf (c :: t') then
      match _h' : Text.cutAt openingEnd ((c :: t').drop openingStart.length) with
      | none => .error here
      | some (classes, after) =>
        (tokens (here + Text.utf8Length (openingStart ++ classes ++ openingEnd)) after).map
          (textToken plain ++ Token.opening classes :: ·)
    else if closingTag.isPrefixOf (c :: t') then
      (tokens (here + Text.utf8Length closingTag) (t'.drop (closingTag.length - 1))).map
        (textToken plain ++ Token.closing :: ·)
    else (tokens (here + 1) t').map (textToken plain ++ Token.text [c] :: ·)
termination_by t.length
decreasing_by
  · have := length_dropWhile_le (· != '<') t
    have := Text.length_lt_of_cutAt (by decide) _h'
    simp only [_h, List.length_cons, List.length_drop] at *
    omega
  · have := length_dropWhile_le (· != '<') t
    simp only [_h, List.length_cons, List.length_drop] at *
    omega
  · have := length_dropWhile_le (· != '<') t
    simp only [_h, List.length_cons] at *
    omega

def openingTag (classes : Text) : Text := openingStart ++ classes ++ openingEnd

def span (classes content : Text) : Text := openingTag classes ++ content ++ closingTag

def escape : Char → Text
  | '&' => "&amp;".toList
  | '<' => "&lt;".toList
  | '>' => "&gt;".toList
  | c => [c]

def escapeQuotes : Char → Text
  | '"' => "&quot;".toList
  | '\'' => "&#39;".toList
  | c => escape c

end SyntaxPaint.Markup
