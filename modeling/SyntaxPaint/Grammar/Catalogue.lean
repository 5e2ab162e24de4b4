import SyntaxPaint.Grammar.Selection
import SyntaxPaint.Grammar.Source
import SyntaxPaint.Markup.Token
import SyntaxPaint.Pattern.Reader
import SyntaxPaint.Pattern.Search

/-!
A stand-in for a library of grammars. It has the names, extensions, scopes and first lines of the
usual grammars and the rules of none of them: it writes a whole source as one span. Where several
grammars fit, later ones hide those before them. What holds of any library is proved without it.
-/
namespace SyntaxPaint.Grammar

def of (name : String) (extensions : List String) (scope : String)
    (firstLine : Option String) : Grammar :=
  ⟨name.toList, extensions.map String.toList, scope.toList, firstLine.map String.toList⟩

def bundled : List Grammar := [
  of "Plain Text" ["txt"] "text.plain" none,
  of "ASP" ["asa"] "source.asp" none,
  of "HTML (ASP)" ["asp"] "text.html.asp" none,
  of "ActionScript" ["as"] "source.actionscript.2" none,
  of "AppleScript" ["applescript", "script editor"] "source.applescript" "^#!.*(osascript)",
  of "Batch File" ["bat", "cmd"] "source.dosbatch" none,
  of "NAnt Build File" ["build"] "source.nant-build" none,
  of "C#" ["cs", "csx"] "source.cs" none,
  of "C++" ["cpp", "cc", "cp", "cxx", "c++", "C", "h", "hh", "hpp", "hxx", "h++", "inl",
    "ipp"] "source.c++" "-\\*- C\\+\\+ -\\*-",
  of "C" ["c", "h"] "source.c" "-[*]-( Mode:)? C -[*]-",
  of "CSS" ["css", "css.erb", "css.liquid"] "source.css" none,
  of "Clojure" ["clj"] "source.clojure" none,
  of "D" ["d", "di"] "source.d" "^#!.*\\bg?dmd\\b.",
  of "Diff" ["diff", "patch"] "source.diff"
    ("^(=== modified file|====\\s*//.+\\s-\\s.+\\s+====|Index: |--- [^%]|" ++
      "\\*\\*\\*.*\\d\x7b4\x7d\\s*$|\\d+(,\\d+)*(a|d|c)\\d+(,\\d+)*$|diff --git )"),
  of "Erlang" ["erl", "hrl", "Emakefile", "emakefile"] "source.erlang" none,
  of "HTML (Erlang)" ["yaws"] "text.html.erlang.yaws" none,
  of "Go" ["go"] "source.go" "-[*]-( Mode:)? Go -[*]-",
  of "Graphviz (DOT)" ["dot", "DOT", "gv"] "source.dot" none,
  of "Groovy" ["groovy", "gvy", "gradle"] "source.groovy" none,
  of "HTML" ["html", "htm", "shtml", "xhtml", "inc", "tmpl", "tpl"] "text.html.basic"
    "(?i)<(!DOCTYPE\\s*)?html",
  of "Haskell" ["hs"] "source.haskell" none,
  of "Literate Haskell" ["lhs"] "text.tex.latex.haskell" none,
  of "Java Server Page (JSP)" ["jsp"] "text.html.jsp" none,
  of "Java" ["java", "bsh"] "source.java" none,
  of "JavaDoc" [] "text.html.javadoc" none,
  of "Java Properties" ["properties"] "source.java-props" none,
  of "JSON" ["json", "sublime-settings", "sublime-menu", "sublime-keymap",
    "sublime-mousemap", "sublime-theme", "sublime-build", "sublime-project",
    "sublime-completions", "sublime-commands", "sublime-macro", "sublime-color-scheme"]
    "source.json" none,
  of "JavaScript" ["js", "htc"] "source.js" "^#!\\s*/.*\\b(node|js)\\b",
  of "Regular Expressions (Javascript)" [] "source.regexp.js" none,
  of "BibTeX" ["bib"] "text.bibtex" none,
  of "LaTeX Log" [] "text.log.latex" "This is (pdf|pdfe)?TeXk?, Version ",
  of "LaTeX" ["tex", "ltx"] "text.tex.latex" none,
  of "TeX" ["sty", "cls"] "text.tex" none,
  of "Lisp" ["lisp", "cl", "clisp", "l", "mud", "el", "scm", "ss", "lsp", "fasl"]
    "source.lisp" none,
  of "Lua" ["lua"] "source.lua" none,
  of "Make Output" [] "source.build_output" none,
  of "Makefile" ["make", "GNUmakefile", "makefile", "Makefile", "OCamlMakefile", "mak", "mk"]
    "source.makefile" "^#!\\s*/usr/bin/make\\b",
  of "Markdown" ["md", "mdown", "markdown", "markdn"] "text.html.markdown" none,
  of "MultiMarkdown" [] "text.html.markdown.multimarkdown" "(?i)^format:\\s*complete\\s*$",
  of "MATLAB" ["matlab"] "source.matlab" none,
  of "OCaml" ["ml", "mli"] "source.ocaml" none,
  of "OCamllex" ["mll"] "source.ocamllex" none,
  of "OCamlyacc" ["mly"] "source.ocamlyacc" none,
  of "camlp4" [] "source.camlp4.ocaml" none,
  of "Objective-C++" ["mm", "M", "h"] "source.objc++" none,
  of "Objective-C" ["m", "h"] "source.objc" none,
  of "PHP Source" [] "source.php" none,
  of "PHP" ["php", "php3", "php4", "php5", "php7", "phps", "phpt", "phtml"] "embedding.php"
    "^(#!.*[^-]php[0-9]?|<\\?php)\\b",
  of "Pascal" ["pas", "p", "dpr"] "source.pascal" none,
  of "Perl" ["pl", "pm", "pod", "t", "PL"] "source.perl" "^#!.*\\bperl\\b",
  of "Python" ["py", "py3", "pyw", "pyi", "pyx", "pyx.in", "pxd", "pxd.in", "pxi", "pxi.in",
    "rpy", "cpy", "SConstruct", "Sconstruct", "sconstruct", "SConscript", "gyp", "gypi",
    "Snakefile", "wscript"] "source.python" "^#!\\s*/.*\\bpython(\\d(\\.\\d)?)?\\b",
  of "Regular Expressions (Python)" [] "source.regexp.python" none,
  of "R Console" [] "source.r-console" none,
  of "R" ["R", "r", "s", "S", "Rprofile"] "source.r" none,
  of "Rd (R Documentation)" ["rd"] "text.tex.latex.rd" none,
  of "HTML (Rails)" ["rails", "rhtml", "erb", "html.erb"] "text.html.ruby" none,
  of "JavaScript (Rails)" ["js.erb"] "source.js.rails" none,
  of "Ruby Haml" ["haml", "sass"] "text.haml" none,
  of "Ruby on Rails" ["rxml", "builder"] "source.ruby.rails" none,
  of "SQL (Rails)" ["erbsql", "sql.erb"] "source.sql.ruby" none,
  of "Regular Expression" ["re"] "source.regexp" none,
  of "reStructuredText" ["rst", "rest"] "text.restructuredtext" none,
  of "Ruby" ["rb", "Appfile", "Appraisals", "Berksfile", "Brewfile", "capfile", "cgi",
    "Cheffile", "config.ru", "Deliverfile", "Fastfile", "fcgi", "Gemfile", "gemspec", "Guardfile",
    "irbrc", "jbuilder", "podspec", "prawn", "rabl", "rake", "Rakefile", "Rantfile", "rbx", "rjs",
    "ruby.rail", "Scanfile", "simplecov", "Snapfile", "thor", "Thorfile", "Vagrantfile"]
    "source.ruby" "^#!\\s*/.*\\bj?ruby\\b",
  of "Cargo Build Results" [] "source.build_results" none,
  of "Rust" ["rs"] "source.rust" none,
  of "SQL" ["sql", "ddl", "dml"] "source.sql" none,
  of "Scala" ["scala", "sbt"] "source.scala" none,
  of "Bourne Again Shell (bash)" ["sh", "bash", "zsh", "fish", ".bash_aliases",
    ".bash_completions", ".bash_functions", ".bash_login", ".bash_logout", ".bash_profile",
    ".bash_variables", ".bashrc", ".profile", ".textmate_init"] "source.shell.bash"
    ("^#!.*\\b(bash|zsh|sh|tcsh)\\b|" ++
      "^#\\s*-\\*-[^*]*mode:\\s*shell-script[^*]*-\\*-"),
  of "Shell-Unix-Generic" [] "source.shell" none,
  of "commands-builtin-shell-bash" [] "commands.builtin.shell.bash" none,
  of "HTML (Tcl)" ["adp"] "text.html.tcl" none,
  of "Tcl" ["tcl"] "source.tcl" none,
  of "Textile" ["textile"] "text.html.textile" "textile",
  of "XML" ["xml", "xsd", "xslt", "tld", "dtml", "rss", "opml", "svg"] "text.xml"
    ("^(?:<\\?xml\\s|\\s*<([\\w-]+):Envelope\\s+xmlns:\\1\\s*=\\s*\"http:" ++
      "//schemas.xmlsoap.org/soap/envelope/\"\\s*>)"),
  of "YAML" ["yaml", "yml", "sublime-syntax"] "source.yaml" "^%YAML( ?1.\\d+)?"]

def last? (gs : List Grammar) (fits : Grammar → Bool) : Option Grammar := gs.reverse.find? fits

def withoutMark : Text → Text
  | '\ufeff' :: line => line
  | line => line

def recognises (g : Grammar) (line : Text) : Bool :=
  (g.firstLine.bind Pattern.read?).any (·.foundIn line)

def rootClass (start : Text) (g : Grammar) : Text :=
  [' '].intercalate ((scopeParts g.scope).map (start ++ ·))

def write (start : Text) (g : Grammar) (source : Text) : Text :=
  if source.isEmpty then []
  else Markup.span (g.rootClass start) (source.flatMap Markup.escapeQuotes)

def catalogue : GrammarLibrary Grammar where
  name := name
  extensions := extensions
  bundled
  extend gs path found := (ofTree path found).map (gs ++ ·)
  named? gs name := last? gs (·.name == name)
  forExtension? gs extension := last? gs (·.extensions.any (Text.sameIgnoringCase · extension))
  forFirstLine? gs line := last? gs (·.recognises (withoutMark line))
  plain? gs := last? gs (·.name == GrammarLibrary.plainName)
  markup _ g start source := .ok (g.write start source)

end SyntaxPaint.Grammar
