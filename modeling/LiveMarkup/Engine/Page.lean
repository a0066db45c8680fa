import LiveMarkup.Value.Json
import LiveMarkup.Text.Search
set_option autoImplicit false

/-! # Finishing a page

A page hands the recorded props to the client in a script before the end of its body; in development
another script reloads the page when the server goes away. -/

namespace LiveMarkup.Page

open Text

/-- The script that carries the props. Their JSON is written so that it cannot end the script. -/
def bootstrapScript (props : Value) : String :=
  "<script>Satur.pageProps = " ++ props.scriptText ++ "</script>"

def reloadScript (port : Nat) : String :=
  "<script>\n    (() => \x7b\n" ++
    "        const ws = new WebSocket(\"ws://\" + location.hostname + \":" ++ toString port ++
    "\")\n        ws.onopen = () => console.log(\"Connected to development server.\")\n" ++
    "        ws.onclose = () => location.reload()\n    \x7d)()\n</script>"

/-- Inserts a fragment before the last end tag of the body, in any case, or else at the end. -/
def injectBeforeBodyEnd (html fragment : String) : String :=
  let text := html.toList
  let at_ :=
    match cutLast? "</body>".toList (text.map Char.toLower) with
    | some (before, _) => before.length
    | none => text.length
  String.ofList (text.take at_) ++ fragment ++ String.ofList (text.drop at_)

/-- Adds the scripts to a rendered page; the port is that of the reload socket, if there is one. -/
def finish (html : String) (props : Value) (reloadPort : Option Nat) : String :=
  let scripts := bootstrapScript props ++ (reloadPort.map reloadScript).getD ""
  injectBeforeBodyEnd html scripts

end LiveMarkup.Page
