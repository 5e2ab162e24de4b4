import SyntaxPaint.Text.Basic

/-!
The themes that come with the program. Each one is a comment line and a list of rules on one line.
-/
namespace SyntaxPaint.Theme.Bundled

structure Source where
  name : Text
  comment : Text
  rules : List (String × String)

def Source.css (s : Source) : Text :=
  "/* ".toList ++ s.comment ++ " */\n".toList ++
    s.rules.flatMap (fun r => r.1.toList ++ '\x7b' :: r.2.toList ++ ['\x7d']) ++ ['\n']

def github : Source where
  name := "github".toList
  comment := "GitHub style, adapted for highlightr".toList
  rules := [
    (".hljs", "display:block;overflow-x:auto;padding:.5em;color:#333;background:#f8f8f8"),
    (".hljs-comment,.hljs-quote", "color:#998;font-style:italic"),
    (".hljs-keyword,.hljs-selector-tag,.hljs-subst,.hljs-storage", "color:#333;font-weight:bold"),
    (".hljs-number,.hljs-literal,.hljs-variable,.hljs-template-variable," ++
      ".hljs-tag .hljs-attr,.hljs-constant",
      "color:#008080"),
    (".hljs-string,.hljs-doctag", "color:#d14"),
    (".hljs-title,.hljs-section,.hljs-selector-id,.hljs-entity", "color:#900;font-weight:bold"),
    (".hljs-subst", "font-weight:normal"),
    (".hljs-type,.hljs-class .hljs-title", "color:#458;font-weight:bold"),
    (".hljs-tag,.hljs-name,.hljs-attribute", "color:#000080;font-weight:normal"),
    (".hljs-regexp,.hljs-link", "color:#009926"),
    (".hljs-symbol,.hljs-bullet", "color:#990073"),
    (".hljs-built_in,.hljs-builtin-name,.hljs-support", "color:#0086b3"),
    (".hljs-meta", "color:#999;font-weight:bold"),
    (".hljs-deletion", "background:#fdd"),
    (".hljs-addition", "background:#dfd"),
    (".hljs-emphasis", "font-style:italic"),
    (".hljs-strong", "font-weight:bold")]

def monokai : Source where
  name := "monokai".toList
  comment := "Monokai style, adapted for highlightr".toList
  rules := [
    (".hljs", "display:block;overflow-x:auto;padding:.5em;background:#272822;color:#ddd"),
    (".hljs-tag,.hljs-keyword,.hljs-selector-tag,.hljs-literal,.hljs-strong,.hljs-name," ++
      ".hljs-storage",
      "color:#f92672"),
    (".hljs-code", "color:#66d9ef"),
    (".hljs-class .hljs-title", "color:white"),
    (".hljs-attribute,.hljs-symbol,.hljs-regexp,.hljs-link", "color:#bf79db"),
    (".hljs-string,.hljs-bullet,.hljs-subst,.hljs-title,.hljs-section,.hljs-emphasis," ++
      ".hljs-type,.hljs-built_in,.hljs-builtin-name,.hljs-selector-attr," ++
      ".hljs-selector-pseudo,.hljs-addition,.hljs-variable,.hljs-template-tag," ++
      ".hljs-template-variable,.hljs-entity",
      "color:#a6e22e"),
    (".hljs-comment,.hljs-quote,.hljs-deletion,.hljs-meta", "color:#75715e"),
    (".hljs-keyword,.hljs-selector-tag,.hljs-literal,.hljs-doctag,.hljs-title," ++
      ".hljs-section,.hljs-type,.hljs-selector-id",
      "font-weight:bold"),
    (".hljs-number,.hljs-constant", "color:#ae81ff")]

def pojoaque : Source where
  name := "pojoaque".toList
  comment := "Pojoaque style, adapted for highlightr".toList
  rules := [
    (".hljs", "display:block;overflow-x:auto;padding:.5em;color:#dccf8f;background:#181914"),
    (".hljs-comment,.hljs-quote", "color:#586e75;font-style:italic"),
    (".hljs-keyword,.hljs-selector-tag,.hljs-literal,.hljs-addition", "color:#b64926"),
    (".hljs-number,.hljs-string,.hljs-doctag,.hljs-regexp", "color:#468966"),
    (".hljs-title,.hljs-section,.hljs-built_in,.hljs-name", "color:#ffb03b"),
    (".hljs-variable,.hljs-template-variable,.hljs-class .hljs-title,.hljs-type,.hljs-tag",
      "color:#b58900"),
    (".hljs-attribute", "color:#b89859"),
    (".hljs-symbol,.hljs-bullet,.hljs-link,.hljs-subst,.hljs-meta", "color:#cb4b16"),
    (".hljs-deletion", "color:#dc322f"),
    (".hljs-selector-id,.hljs-selector-class", "color:#d3a60c"),
    (".hljs-formula", "background:#073642"),
    (".hljs-emphasis", "font-style:italic"),
    (".hljs-strong", "font-weight:bold"),
    (".hljs-constant", "color:#468966"),
    (".hljs-storage", "color:#b64926"),
    (".hljs-entity", "color:#ffb03b"),
    (".hljs-punctuation", "color:#dccf8f")]

def all : List Source := [github, monokai, pojoaque]

end SyntaxPaint.Theme.Bundled
