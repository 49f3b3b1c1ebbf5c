import Soika.Alertmanager.Alert

/-! # Setup of the SDKs

The code that a project page offers for each language: an SDK is given the DSN, and a caller
without one posts to the two ingestion endpoints.
-/

namespace Soika.Site

structure SdkSnippet where
  language : String
  label : String
  code : String

def ingestUrls (baseUrl : String) (projectId : Id) : String × String :=
  (s!"{trimEndSlashes baseUrl}/api/{projectId}/envelope/",
    s!"{trimEndSlashes baseUrl}/api/{projectId}/store/")

def sdkSnippets (dsn publicKey envelopeUrl storeUrl : String) : List SdkSnippet :=
  [{ language := "go"
     label := "Go"
     code := "import \"github.com/getsentry/sentry-go\"\n\n" ++
       "err := sentry.Init(sentry.ClientOptions\x7b\n    " ++
       "Dsn: \"" ++ dsn ++ "\",\n\x7d)\n" ++
       "if err != nil \x7b\n    " ++
       "log.Fatalf(\"sentry.Init: %s\", err)\n\x7d\n" ++
       "defer sentry.Flush(2 * time.Second)" },
   { language := "rust"
     label := "Rust"
     code := "let _guard = sentry::init((\n    " ++
       "\"" ++ dsn ++ "\",\n    " ++
       "sentry::ClientOptions \x7b\n        " ++
       "release: sentry::release_name!(),\n        " ++
       "..Default::default()\n    " ++
       "\x7d,\n));" },
   { language := "javascript"
     label := "Svelte / JavaScript"
     code := "import * as Sentry from \"@sentry/svelte\";\n\n" ++
       "Sentry.init(\x7b\n  " ++
       "dsn: \"" ++ dsn ++ "\",\n  " ++
       "tracesSampleRate: 0,\n\x7d);" },
   { language := "python"
     label := "Python"
     code := "import sentry_sdk\n\n" ++
       "sentry_sdk.init(\n    " ++
       "dsn=\"" ++ dsn ++ "\",\n    " ++
       "traces_sample_rate=0,\n)" },
   { language := "java"
     label := "Java"
     code := "import io.sentry.Sentry;\n\n" ++
       "Sentry.init(options -> \x7b\n  " ++
       "options.setDsn(\"" ++ dsn ++ "\");\n\x7d);" },
   { language := "kotlin"
     label := "Kotlin"
     code := "import io.sentry.Sentry\n\n" ++
       "Sentry.init \x7b options ->\n  " ++
       "options.dsn = \"" ++ dsn ++ "\"\n\x7d" },
   { language := "generic"
     label := "Generic / raw HTTP"
     code := "# Point any Sentry-compatible SDK at this DSN:\n" ++
       "SENTRY_DSN=" ++ dsn ++ "\n\n" ++
       "# --- Or send events over raw HTTP ---\n" ++
       "# Auth via the `X-Sentry-Auth` header (or `?sentry_key=` query).\n\n" ++
       "# Modern: newline-delimited envelope (recommended).\n" ++
       "printf '\x7b\"event_id\":\"%s\"\x7d\\n\x7b\"type\":\"event\"\x7d\\n" ++
       "\x7b\"message\":\"hello\"\x7d\\n' \\\n  " ++
       "\"$(uuidgen | tr -d - | tr 'A-Z' 'a-z')\" \\\n" ++
       "| curl -X POST '" ++ envelopeUrl ++ "' \\\n    " ++
       "-H 'X-Sentry-Auth: Sentry sentry_version=7, sentry_key=" ++ publicKey ++ "' \\\n    " ++
       "-H 'Content-Type: application/x-sentry-envelope' \\\n    " ++
       "--data-binary @-\n\n" ++
       "# Legacy: a single bare JSON event (pre-envelope SDKs).\n" ++
       "curl -X POST '" ++ storeUrl ++ "' \\\n    " ++
       "-H 'X-Sentry-Auth: Sentry sentry_version=7, sentry_key=" ++ publicKey ++ "' \\\n    " ++
       "-H 'Content-Type: application/json' \\\n    " ++
       "-d '\x7b\"message\":\"hello\"\x7d'" }]

end Soika.Site
