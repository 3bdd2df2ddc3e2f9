import Highlighter.Scheme.Draft
import Highlighter.Theme

/-!
The schemes that come with the library.
-/

namespace Highlighter.Languages

open Scheme

def role (theme : Theme) (name : String) : Color := (theme.colorForRole? name).getD theme.base

/-- A rule for text between two delimiters. -/
def enclosed (theme : Theme) (label roleName opener closer : String) : Rule :=
  (Rule.delimited label (role theme roleName) opener.toList).withCloser closer.toList

/-- A rule for text from a delimiter to the end of its line. -/
def trailing (theme : Theme) (label roleName opener : String) : Rule :=
  .delimited label (role theme roleName) opener.toList

def word (theme : Theme) (label roleName pattern : String) : Rule :=
  (Rule.token label (role theme roleName)).withPattern pattern.toList

def character (theme : Theme) (label roleName pattern : String) : Rule :=
  (Rule.singleChar label (role theme roleName)).withPattern pattern.toList

def overLines (r : Rule) : Rule := { r with multiLine := true }

def operators (theme : Theme) : Rule :=
  character theme "OPERATOR" "operator" "[-+*/%=<>!&|^~?:]"

def brackets (theme : Theme) : Rule :=
  character theme "BRACKET" "punctuation.bracket" "[()\\[\\]\x7b\x7d]"

def javascript (theme : Theme) : Except SchemeError Scheme :=
  ((Draft.new "javascript").withBaseColor theme.base).labels [
    trailing theme "COMMENT" "comment.line" "//",
    overLines (enclosed theme "BLOCK_COMMENT" "comment.block" "/\\*" "\\*/"),
    enclosed theme "STRING_DOUBLE" "string" "\"" "\"",
    enclosed theme "STRING_SINGLE" "string" "'" "'",
    overLines (enclosed theme "TEMPLATE" "string.template" "`" "`"),
    word theme "NUMBER" "number" "\\d+|0[xX][0-9a-fA-F]+|\\d+[eE]\\d+",
    word theme "KEYWORD" "keyword" (
      "var|let|const|function|return|if|else|for|while|do|switch|case|default|" ++
      "break|continue|new|delete|typeof|instanceof|in|of|class|extends|super|import|export|" ++
      "from|as|try|catch|finally|throw|async|await|yield|void|with|static|get|set"),
    word theme "CONSTANT" "constant" "true|false|null|undefined|NaN|Infinity|this",
    operators theme,
    brackets theme]
  |>.rankGroup ["BLOCK_COMMENT", "COMMENT", "STRING_DOUBLE", "STRING_SINGLE", "TEMPLATE"]
  |>.build

def css (theme : Theme) : Except SchemeError Scheme :=
  let separated (r : Rule) : Rule := r.withSeparators " \t;:,()\x7b\x7d[]\"'".toList
  ((Draft.new "css").withBaseColor theme.base).labels [
    overLines (enclosed theme "COMMENT" "comment.block" "/\\*" "\\*/"),
    enclosed theme "STRING_DOUBLE" "string" "\"" "\"",
    enclosed theme "STRING_SINGLE" "string" "'" "'",
    separated (word theme "HEX_COLOR" "constant"
      "#(?:[0-9a-fA-F]\x7b3,4\x7d|[0-9a-fA-F]\x7b6\x7d|[0-9a-fA-F]\x7b8\x7d)"),
    separated (word theme "NUMBER" "number"
      "-?\\d*\\.?\\d+(?:px|em|rem|%|vh|vw|vmin|vmax|ch|ex|pt|s|ms|deg|fr)?"),
    separated (word theme "AT_RULE" "keyword" "@[A-Za-z-]+"),
    separated (word theme "VALUE" "constant.builtin" (
      "important|inherit|initial|unset|none|auto|block|inline|inline-block|" ++
      "flex|grid|absolute|relative|fixed|sticky|solid|dashed|dotted|bold|normal|italic|" ++
      "hidden|visible")),
    character theme "PUNCTUATION" "punctuation.delimiter" "[\x7b\x7d:;,()]"]
  |>.rankGroup ["COMMENT", "STRING_DOUBLE", "STRING_SINGLE"]
  |>.build

/-- Scripts and styles are embedded without the tags around them; strings count only in tags. -/
def html (theme : Theme) (script style : Scheme) : Except SchemeError Scheme :=
  let inTag (r : Rule) : Rule := { r with requires := some "TAG" }
  let inside (r : Rule) : Rule := { r with extension := .excludeDelimiters }
  ((Draft.new "html").withBaseColor theme.base).labels [
    overLines (enclosed theme "COMMENT" "comment.block" "<!--" "-->"),
    overLines (inside (enclosed theme "SCRIPT_BLOCK" "embedded" "<script\\b[^>]*>" "</script>")),
    overLines (inside (enclosed theme "STYLE_BLOCK" "embedded" "<style\\b[^>]*>" "</style>")),
    inTag (enclosed theme "STRING_DOUBLE" "string" "\"" "\""),
    inTag (enclosed theme "STRING_SINGLE" "string" "'" "'"),
    overLines (enclosed theme "TAG" "tag" "</?[A-Za-z][A-Za-z0-9-]*" "/?>"),
    (word theme "ENTITY" "escape" "&[A-Za-z]+;|&#[0-9]+;").withSeparators " \t<>\"'".toList]
  |>.rank "COMMENT"
  |>.rankGroup ["SCRIPT_BLOCK", "STYLE_BLOCK"]
  |>.rankGroup ["STRING_DOUBLE", "STRING_SINGLE"]
  |>.embed "SCRIPT_BLOCK" script
  |>.embed "STYLE_BLOCK" style
  |>.build

def python (theme : Theme) : Except SchemeError Scheme :=
  ((Draft.new "python").withBaseColor theme.base).labels [
    trailing theme "COMMENT" "comment.line" "#",
    overLines (enclosed theme "TRIPLE_DOUBLE" "string.doc" "\"\"\"" "\"\"\""),
    overLines (enclosed theme "TRIPLE_SINGLE" "string.doc" "'''" "'''"),
    enclosed theme "STRING_DOUBLE" "string" "\"" "\"",
    enclosed theme "STRING_SINGLE" "string" "'" "'",
    word theme "NUMBER" "number" "\\d+|0[xXoObB][0-9a-fA-F_]+|\\d+[jJ]",
    word theme "KEYWORD" "keyword" (
      "def|class|return|if|elif|else|for|while|break|continue|pass|import|" ++
      "from|as|with|try|except|finally|raise|lambda|yield|global|nonlocal|assert|del|in|is|" ++
      "not|and|or|async|await"),
    word theme "CONSTANT" "constant" "True|False|None|self|cls",
    word theme "DECORATOR" "attribute" "@\\w+",
    operators theme,
    brackets theme]
  |>.rankGroup ["COMMENT", "TRIPLE_DOUBLE", "TRIPLE_SINGLE", "STRING_DOUBLE", "STRING_SINGLE"]
  |>.build

end Highlighter.Languages
