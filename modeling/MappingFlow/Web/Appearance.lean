/-
  MappingFlow.Web.Appearance — the fixed texts around the pages of the application.
-/

namespace MappingFlow.Web

def pageTitle : String := "PowerCenter to ADF Migrator v2.5"

/-- What the menu tells about the application. -/
def aboutText : String :=
  "\n".intercalate
   ["",
    "        # PowerCenter to ADF Migrator v2.5",
    "",
    "        Herramienta de migración automatizada de Informatica PowerCenter a Azure Data Factory.",
    "",
    "        Desarrollado por Benjamín Riquelme para Entix SpA y UTEM.",
    "        "]

def helpAddress : String := "https://github.com/yourusername/pc-to-adf"

def issuesAddress : String := "https://github.com/yourusername/pc-to-adf/issues"

def styleSheet : String :=
  "\n".intercalate
   ["",
    "<style>",
    "    /* Header principal */",
    "    .main-header \x7b",
    "        font-size: 2.5rem;",
    "        color: #E31837;",
    "        text-align: center;",
    "        margin-bottom: 1rem;",
    "        font-weight: bold;",
    "    \x7d",
    "",
    "    .sub-header \x7b",
    "        text-align: center;",
    "        color: #666;",
    "        font-size: 1rem;",
    "        margin-bottom: 2rem;",
    "    \x7d",
    "",
    "    /* Métricas */",
    "    .stMetric \x7b",
    "        background-color: #f0f2f6;",
    "        padding: 15px;",
    "        border-radius: 8px;",
    "        border-left: 4px solid #E31837;",
    "    \x7d",
    "",
    "    /* Boxes de estado */",
    "    .success-box \x7b",
    "        background-color: #d4edda;",
    "        border-left: 5px solid #28a745;",
    "        padding: 15px;",
    "        margin: 10px 0;",
    "        border-radius: 4px;",
    "    \x7d",
    "",
    "    .warning-box \x7b",
    "        background-color: #fff3cd;",
    "        border-left: 5px solid #ffc107;",
    "        padding: 15px;",
    "        margin: 10px 0;",
    "        border-radius: 4px;",
    "    \x7d",
    "",
    "    .error-box \x7b",
    "        background-color: #f8d7da;",
    "        border-left: 5px solid #dc3545;",
    "        padding: 15px;",
    "        margin: 10px 0;",
    "        border-radius: 4px;",
    "    \x7d",
    "",
    "    .info-box \x7b",
    "        background-color: #ffe6e6;",
    "        border-left: 5px solid #E31837;",
    "        padding: 15px;",
    "        margin: 10px 0;",
    "        border-radius: 4px;",
    "    \x7d",
    "",
    "    /* Tabs */",
    "    .stTabs [data-baseweb=\"tab-list\"] \x7b",
    "        gap: 8px;",
    "    \x7d",
    "",
    "    .stTabs [data-baseweb=\"tab\"] \x7b",
    "        padding: 12px 24px;",
    "        background-color: #f0f2f6;",
    "        border-radius: 8px 8px 0 0;",
    "    \x7d",
    "",
    "    .stTabs [aria-selected=\"true\"] \x7b",
    "        background-color: #E31837;",
    "        color: white;",
    "    \x7d",
    "",
    "    /* Botones */",
    "    .stButton > button \x7b",
    "        border-radius: 6px;",
    "        font-weight: 500;",
    "    \x7d",
    "",
    "    /* Expanders */",
    "    .streamlit-expanderHeader \x7b",
    "        font-weight: 600;",
    "        font-size: 1.1rem;",
    "    \x7d",
    "",
    "    /* File uploader */",
    "    .uploadedFile \x7b",
    "        border: 2px dashed #E31837;",
    "        border-radius: 8px;",
    "        padding: 20px;",
    "    \x7d",
    "",
    "    /* JSON viewer */",
    "    .stJson \x7b",
    "        background-color: #f8f9fa;",
    "        border-radius: 6px;",
    "        padding: 10px;",
    "    \x7d",
    "</style>",
    ""]

def banner : String := "<h1 class=\"main-header\">🔄 PowerCenter to Azure Data Factory Migrator</h1>"

def subtitle : String := "<p class=\"sub-header\">Version 2.5 - Web Interface | Entix SpA & UTEM</p>"

def footer : String :=
  "\n".intercalate
   ["",
    "<div style=\"text-align: center; color: #666; font-size: 0.85rem; padding: 20px 0;\">",
    "    <p style=\"margin: 5px 0;\">",
    "        <strong>PowerCenter to Azure Data Factory Migration Tool v2.5</strong>",
    "    </p>",
    "    <p style=\"margin: 5px 0;\">",
    "        Desarrollado para <strong>Entix SpA</strong> | <strong>Universidad Tecnológica Metropolitana (UTEM)</strong>",
    "    </p>",
    "    <p style=\"margin: 5px 0; color: #999;\">",
    "        © 2025 Benjamín Riquelme - Práctica Profesional & Tesis de Grado",
    "    </p>",
    "</div>",
    ""]

/-- Versions of the application and of what it runs on. -/
def systemLines : List String := ["**Version:** 2.5.0", "**Python:**", "**Streamlit:** 0"]

end MappingFlow.Web
